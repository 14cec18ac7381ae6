import Mathlib.Data.List.TakeWhile
import MonkeyFront.Proofs.Scanner.Spelling
import MonkeyFront.Proofs.Text.Quoted

/-!
# Spans

Lexemes lie one behind the other in their source, with nothing but blanks between them, and the
literal of each tells the text that it lies on: the literal of an illegal token is a message, but the
text is quoted in it. So the tokens determine the source up to blanks.
-/

namespace MonkeyFront

/-! ## Tokens and their text -/

/-- A token was made of a text. -/
inductive Token.StandsFor : Token → List Char → Prop
  | literal {token : Token} {text : List Char} (hk : token.kind ≠ .illegal)
      (hl : token.literal = String.ofList text) : StandsFor token text
  | illegalCharacter {token : Token} {c : Char} (hk : token.kind = .illegal)
      (hl : token.literal = "illegal character: " ++ Text.quoted (String.ofList [c])) :
      StandsFor token [c]
  | badNumber {token : Token} {text : List Char} (hk : token.kind = .illegal)
      (hl : token.literal = "bad number syntax: " ++ Text.quoted (String.ofList text)) :
      StandsFor token text

/-- The two messages differ in their first character. -/
theorem illegalCharacter_ne_badNumber (a b : String) :
    "illegal character: " ++ a ≠ "bad number syntax: " ++ b := by
  intro h
  have hlists := congrArg String.toList h
  simp at hlists

theorem eq_of_quoted {message : String} {text other : List Char}
    (h : message ++ Text.quoted (String.ofList text) = message ++ Text.quoted (String.ofList other)) :
    text = other :=
  String.ofList_injective (Text.quoted_injective (String.append_right_inj message |>.mp h))

/-- A token tells its text. -/
theorem Token.StandsFor.unique {token : Token} {text other : List Char} (h : token.StandsFor text)
    (ho : token.StandsFor other) : text = other := by
  cases h with
  | literal hk hl =>
      cases ho with
      | literal _ hl' => exact String.ofList_injective (hl.symm.trans hl')
      | illegalCharacter hk' | badNumber hk' => exact absurd hk' hk
  | illegalCharacter hk hl =>
      cases ho with
      | literal hk' => exact absurd hk hk'
      | illegalCharacter _ hl' => exact eq_of_quoted (hl.symm.trans hl')
      | badNumber _ hl' => exact absurd (hl.symm.trans hl') (illegalCharacter_ne_badNumber _ _)
  | badNumber hk hl =>
      cases ho with
      | literal hk' => exact absurd hk hk'
      | illegalCharacter _ hl' => exact absurd (hl'.symm.trans hl) (illegalCharacter_ne_badNumber _ _)
      | badNumber _ hl' => exact eq_of_quoted (hl.symm.trans hl')

theorem exists_standsFor {text rest : List Char} {token : Token}
    (h : longestMatch text = some (token, rest)) :
    ∃ taken, text = taken ++ rest ∧ token.StandsFor taken := by
  cases match_of_longestMatch h with
  | sign mark ht => exact ⟨_, ht, .literal (by simp) rfl⟩
  | @word _ run _ ht =>
      refine ⟨run, ht, .literal ?_ rfl⟩
      rcases Kind.ofWord_cases (String.ofList run) with hk | ⟨word, hk, -⟩ <;> simp [hk]
  | number ht => exact ⟨_, ht, .literal (by simp) rfl⟩
  | badNumber ht => exact ⟨_, ht, .badNumber rfl rfl⟩
  | @illegalCharacter c => exact ⟨[c], rfl, .illegalCharacter rfl rfl⟩

/-! ## Lexemes and their spans -/

/-- Lexemes that lie on a source from a position on, one behind the other: each of them stands for
the text of its span, which is not empty, and what no span covers is blank. -/
inductive Covers (source : List Char) : Nat → List Lexeme → Prop
  | nil {position : Nat} (hblank : ∀ c ∈ source.drop position, Text.isBlank c = true) :
      Covers source position []
  | cons {position : Nat} {lexeme : Lexeme} {others : List Lexeme}
      (hgap : position ≤ lexeme.start)
      (hblank : ∀ c ∈ source.extract position lexeme.start, Text.isBlank c = true)
      (hspan : lexeme.start < lexeme.stop) (hstop : lexeme.stop ≤ source.length)
      (htext : lexeme.token.StandsFor (source.extract lexeme.start lexeme.stop))
      (hothers : Covers source lexeme.stop others) : Covers source position (lexeme :: others)

/-- No lexeme starts before the position, and each starts before the next one does. -/
theorem Covers.starts {source : List Char} {position : Nat} {lexemes : List Lexeme}
    (h : Covers source position lexemes) :
    (∀ lexeme ∈ lexemes, position ≤ lexeme.start) ∧
      lexemes.Pairwise fun lexeme other => lexeme.start < other.start := by
  induction h with
  | nil => simp
  | cons hgap _ hspan _ _ _ ih =>
      obtain ⟨hfrom, hpairs⟩ := ih
      refine ⟨List.forall_mem_cons.mpr ⟨hgap, fun lexeme hm => ?_⟩,
        List.pairwise_cons.mpr ⟨fun lexeme hm => ?_, hpairs⟩⟩
      · have := hfrom lexeme hm
        omega
      · have := hfrom lexeme hm
        omega

/-- The text of a lexeme is where the lexeme says. -/
theorem Covers.text_at {source : List Char} {position : Nat} {lexemes : List Lexeme}
    (h : Covers source position lexemes) :
    ∀ lexeme ∈ lexemes, lexeme.stop ≤ source.length ∧
      lexeme.token.StandsFor (source.extract lexeme.start lexeme.stop) := by
  induction h with
  | nil => simp
  | cons _ _ _ hstop htext _ ih => exact List.forall_mem_cons.mpr ⟨⟨hstop, htext⟩, ih⟩

/-- A text without its blanks. -/
def withoutBlanks (text : List Char) : List Char := text.filter fun c => !Text.isBlank c

theorem withoutBlanks_of_blank {text : List Char} (h : ∀ c ∈ text, Text.isBlank c = true) :
    withoutBlanks text = [] := by
  simpa [withoutBlanks] using h

theorem drop_eq_extract_append {α : Type} (list : List α) {start stop : Nat} (h : start ≤ stop) :
    list.drop start = list.extract start stop ++ list.drop stop := by
  have := List.take_append_drop (stop - start) (list.drop start)
  rw [List.drop_drop, Nat.add_sub_cancel' h] at this
  exact this.symm

theorem extract_append {α : Type} (before taken rest : List α) :
    (before ++ taken ++ rest).extract before.length (before.length + taken.length) = taken := by
  rw [List.extract_eq_take_drop]
  simp

theorem withoutBlanks_append (text more : List Char) :
    withoutBlanks (text ++ more) = withoutBlanks text ++ withoutBlanks more :=
  List.filter_append text more

/-- Sources with equal tokens differ in blanks only. -/
theorem Covers.withoutBlanks_eq {source other : List Char} {position place : Nat}
    {lexemes more : List Lexeme} (h : Covers source position lexemes) (ho : Covers other place more)
    (htokens : lexemes.map (·.token) = more.map (·.token)) :
    withoutBlanks (source.drop position) = withoutBlanks (other.drop place) := by
  induction h generalizing place more with
  | nil hblank =>
      cases ho with
      | nil hblank' => rw [withoutBlanks_of_blank hblank, withoutBlanks_of_blank hblank']
      | cons => cases htokens
  | cons hgap hblank hspan _ htext _ ih =>
      cases ho with
      | nil => cases htokens
      | cons hgap' hblank' hspan' _ htext' hothers' =>
          simp only [List.map_cons, List.cons.injEq] at htokens
          obtain ⟨htoken, hmore⟩ := htokens
          rw [← htoken] at htext'
          have hsame := htext.unique htext'
          rw [drop_eq_extract_append source hgap, drop_eq_extract_append other hgap',
            drop_eq_extract_append source (Nat.le_of_lt hspan),
            drop_eq_extract_append other (Nat.le_of_lt hspan'), hsame]
          simp only [withoutBlanks_append, withoutBlanks_of_blank hblank,
            withoutBlanks_of_blank hblank', ih hothers' hmore]

/-- A lexeme after blanks, with lexemes that cover what comes after it. -/
theorem Covers.next {before blanks taken rest : List Char} {token : Token} {others : List Lexeme}
    (hblank : ∀ c ∈ blanks, Text.isBlank c = true) (hne : taken ≠ [])
    (htext : token.StandsFor taken)
    (h : Covers (before ++ blanks ++ taken ++ rest) (before ++ blanks ++ taken).length others) :
    Covers (before ++ blanks ++ taken ++ rest) before.length
      (⟨token, (before ++ blanks).length, (before ++ blanks).length + taken.length⟩ :: others) := by
  have hgap : (before ++ blanks ++ taken ++ rest).extract before.length (before ++ blanks).length =
      blanks := by
    rw [List.length_append, List.append_assoc _ taken rest, extract_append]
  have hspan := extract_append (before ++ blanks) taken rest
  have hpositive := List.length_pos_iff.mpr hne
  refine .cons ?_ (by rwa [hgap]) ?_ ?_ (by rwa [hspan]) ?_
  · simp
  · simpa using hpositive
  · simp only [List.length_append]
    omega
  · rwa [List.length_append] at h

namespace Scanner

/-- The lexemes of a ready scanner cover what is left to read. -/
theorem covers_drain {scanner : Scanner} {before text : List Char} (h : scanner.Ready before text) :
    Covers (before ++ text) before.length scanner.drain.lexemes := by
  fun_induction munch text generalizing scanner before with
  | case1 text hmatch =>
      obtain ⟨after, hnext, -⟩ := next_at_end h (eq_nil_of_longestMatch hmatch)
      rw [drain_of_eof hnext rfl]
      refine .nil ?_
      rw [List.drop_left]
      exact List.dropWhile_eq_nil_iff.mp (eq_nil_of_longestMatch hmatch)
  | case2 text token rest hmatch ih =>
      obtain ⟨taken, htaken, after, hnext, hready⟩ := h.handsOut hmatch
      obtain ⟨own, hown, hstands⟩ := exists_standsFor hmatch
      obtain rfl : taken = own := List.append_cancel_right (htaken.symm.trans hown)
      have hne : taken ≠ [] := by
        rintro rfl
        have := length_longestMatch_lt hmatch
        simp [htaken] at this
      have htext : before ++ text = before ++ text.takeWhile Text.isBlank ++ taken ++ rest := by
        rw [List.append_assoc _ taken rest, ← htaken, List.append_assoc,
          List.takeWhile_append_dropWhile]
      rw [drain_of_next hnext (kind_ne_eof_of_longestMatch hmatch), htext]
      exact .next (List.all_eq_true.mp List.all_takeWhile) hne hstands (ih hready)

end Scanner

/-- The tokens of a source before the end token lie on spans of it in their order, and every other
character is blank. So sources with the same tokens are the same text but for blanks. -/
theorem lexemes_cover (source : String) :
    tokenize source = (lexemesOf source).map (·.token) ++ [Token.eof] ∧
    Covers source.toList 0 (lexemesOf source) ∧
    ∀ other, tokenize source = tokenize other →
      withoutBlanks source.toList = withoutBlanks other.toList := by
  have hcovers (source : String) : Covers source.toList 0 (lexemesOf source) :=
    Scanner.covers_drain (Scanner.ready_ofSource source)
  refine ⟨rfl, hcovers source, fun other h => ?_⟩
  exact (hcovers source).withoutBlanks_eq (hcovers other) (List.append_cancel_right h)

theorem lexemes_cover_illegal :
    tokenize "1x =\t= §" = tokenize " 1x = =§" ∧
    withoutBlanks "1x =\t= §".toList = withoutBlanks " 1x = =§".toList :=
  have h : tokenize "1x =\t= §" = tokenize " 1x = =§" := by decide +kernel
  ⟨h, (lexemes_cover _).2.2 _ h⟩

end MonkeyFront
