import MonkeyFront.Proofs.Parser.SameTokens
import MonkeyFront.Proofs.Scanner.Locality
import MonkeyFront.Tree.Rendering

/-!
# Blank space

Nothing is carried over blanks. A text is scanned up to them as if it ended there, and from them on
as if it started there, so it does not matter which blanks they are.
-/

namespace MonkeyFront

/-- Blanks between two texts, at least one. -/
structure BlankSpace where
  text : String
  nonempty : text ≠ ""
  blank : ∀ c ∈ text.toList, Text.isBlank c = true

theorem delimits_of_isBlank {c : Char} (h : Text.isBlank c = true) : Delimits c where
  not_letter := (not_word_of_isBlank h).1
  not_digit := (not_word_of_isBlank h).2
  not_equals := by
    rintro rfl
    exact absurd h (by decide)

theorem munch_append_blanks {blanks : List Char} (hne : blanks ≠ [])
    (hb : ∀ c ∈ blanks, Text.isBlank c = true) (text more : List Char) :
    munch (text ++ blanks ++ more) = (munch text).dropLast ++ munch more := by
  obtain ⟨c, others, rfl⟩ := List.exists_cons_of_ne_nil hne
  have hd := delimits_of_isBlank (hb c List.mem_cons_self)
  calc munch (text ++ c :: others ++ more)
      = munch (text ++ c :: (others ++ more)) := by rw [List.append_assoc, List.cons_append]
    _ = (munch text).dropLast ++ munch (c :: others ++ more) := munch_append_delimiter hd _ _
    _ = (munch text).dropLast ++ munch more := by rw [munch_blanks hb]

theorem tokenize_blankSpace (a b : String) (space : BlankSpace) :
    tokenize (a ++ space.text ++ b) = (tokenize a).dropLast ++ tokenize b := by
  have hne : space.text.toList ≠ [] := by simpa using space.nonempty
  simp only [← munch_toList, String.toList_append]
  exact munch_append_blanks hne space.blank _ _

/-- Scanning is local. Blanks cut a text into two that are scanned apart, and a token that is not
the last one before the end stays when the text goes on. So which blanks stand between two texts
does not matter to the program, to its errors or to its rendering. -/
theorem scanning_local (a b : String) :
    (∀ space : BlankSpace,
      tokenize (a ++ space.text ++ b) = (tokenize a).dropLast ++ tokenize b) ∧
    (tokenize a).dropLast.dropLast <+: tokenize (a ++ b) ∧
    ∀ space other : BlankSpace,
      let first := parse (a ++ space.text ++ b)
      let second := parse (a ++ other.text ++ b)
      first.program = second.program ∧ first.errors = second.errors ∧
        first.program.render = second.program.render := by
  refine ⟨tokenize_blankSpace a b, ?_, fun space other => ?_⟩
  · have hmunch (source : String) : tokenize source = munch source.toList :=
      Scanner.map_token_drain (Scanner.ready_ofSource source)
    rw [hmunch, hmunch, String.toList_append]
    exact munch_prefix_append _ _
  · intro first second
    have htokens := (tokenize_blankSpace a b space).trans (tokenize_blankSpace a b other).symm
    obtain ⟨hprogram, herrors⟩ := Parser.parse_of_tokens htokens
    exact ⟨hprogram, herrors, congrArg Program.render hprogram⟩

/-- The last token may change when the text goes on. -/
example : tokenize "a 12" = [⟨.ident, "a"⟩, ⟨.int, "12"⟩, .eof] ∧
    tokenize ("a 12" ++ "b") =
      [⟨.ident, "a"⟩, ⟨.illegal, "bad number syntax: '12b'"⟩, .eof] := by
  decide +kernel

end MonkeyFront
