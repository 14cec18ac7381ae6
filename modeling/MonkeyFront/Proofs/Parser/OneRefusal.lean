import MonkeyFront.Proofs.Parser.Semicolon
import MonkeyFront.Proofs.Parser.TooDeep

/-!
# A statement nested too deeply

A statement without blocks that is nested too deeply is one error, wherever in it the level too many
is. The parser stops at the semicolon after it, and what comes then is parsed as if it stood alone.
-/

namespace MonkeyFront.Parser

open Rule Grammar

section Refusal

variable {nesting room : Nat} {tokens rest : List Token} {tree : Statement} {parser : Parser}

/-- A statement without blocks has no semicolon but the one that closes it. -/
theorem unbroken_of_unclosed (hd : Derives (.statement false tree) nesting tokens)
    (hb : Braceless tokens) : Unbroken tokens := by
  cases hd with
  | binding hw hn ha hd =>
      simp only [braceless_cons] at hb
      simp [hw, hn, ha, unbroken_of_braceless hd hb.2.2.2 trivial]
  | result hw hd =>
      rw [braceless_cons] at hb
      simp [hw, unbroken_of_braceless hd hb.2 trivial]
  | bare hd => exact unbroken_of_braceless hd hb trivial

theorem Clear.closed (h : Clear tokens) : Clear (tokens ++ .ofSign .semicolon :: rest) := by
  have htake : (tokens ++ .ofSign .semicolon :: rest).takeWhile (·.kind != .sign .semicolon) =
      tokens.takeWhile (·.kind != .sign .semicolon) := by
    rw [List.takeWhile_append]
    split
    next hall => simp [List.takeWhile_sublist _ |>.eq_of_length hall]
    next => rfl
  intro token hm
  apply h token
  rwa [htake] at hm

/-- A statement nested too deeply, and the semicolon after it, leave a gap and one report. -/
theorem gap_of_nesting (hd : Derives (.statement false tree) nesting tokens)
    (hr : Readable tokens) (hb : Braceless tokens) (hlt : room < nesting)
    (ht : parser.tokens = tokens ++ .ofSign .semicolon :: rest) :
    ∃ after, statementOrGap (nestedIn room) parser = (some none, after) ∧ after.tokens = rest ∧
      after.diagnostics = parser.diagnostics ++ [.tooDeep] := by
  have hu : Unbroken tokens := unbroken_of_unclosed hd hb
  have hclear : Clear parser.tokens := ht ▸ (clear_of_derives hd hb).closed
  obtain ⟨remaining, after, he, hreports, hstop⟩ := refused_statement hd hr hb hlt ht hclear
  have hstop : after.tokens = .ofSign .semicolon :: rest := by
    rw [hstop, ht, fromSemicolon_append hu]
    simp [fromSemicolon]
  refine ⟨after.advance, ?_, ?_, ?_⟩
  · rw [statementOrGap, attempt_bind, he]
    rfl
  · rw [tokens_advance, hstop, List.tail_cons]
  · simp [diagnostics, hreports]

end Refusal

/-- A source that is one statement nested too deeply has one error and no statement. -/
theorem parse_of_nesting {source : String} {tree : Statement} {nesting : Nat} {tokens : List Token}
    (hd : Derives (.statement false tree) nesting tokens) (hr : Readable tokens)
    (hb : Braceless tokens) (hlt : maxDepth < nesting)
    (ht : (ofSource source).tokens = tokens ++ [.ofSign .semicolon]) :
    (parse source).program.statements = [] ∧
      (parse source).errors = [Diagnostic.tooDeep.message] := by
  obtain ⟨after, hitem, hrest, hdiag⟩ := gap_of_nesting hd hr hb hlt ht
  have hgo : (ofSource source).beforeEnd = true :=
    beforeEnd_of_startsStatement _ (startsStatement_of_tokens hd ht)
  have hstop : after.beforeEnd = false := by
    simp [beforeEnd, currentIs, currentToken_eq, hrest, Token.eof]
  have hrun : statementsOrGaps (nestedIn maxDepth) (ofSource source) = (some [none], after) :=
    many_more hgo hitem (many_stop hstop)
  obtain ⟨hprogram, herrors⟩ := parse_of_statementsOrGaps hrun
  refine ⟨hprogram, ?_⟩
  rw [herrors, hdiag]
  rfl

end MonkeyFront.Parser

namespace MonkeyFront

open Grammar

/-- Operators before an operand nest as deep as there are operators, and one level more. -/
theorem derives_bangs (count : Nat) :
    Derives (.expression .unary
        (Nat.repeat (.unary (.ofSign .bang) "!") count (.identifier ⟨⟨.ident, "a"⟩, "a"⟩)))
      (count + 1) (List.replicate count (.ofSign .bang) ++ [⟨.ident, "a"⟩]) := by
  induction count with
  | zero => exact Derives.loosen (.name rfl) (by decide)
  | succ count ih => exact .unary (.inl rfl) ih

theorem munch_bangs (count : Nat) :
    munch (List.replicate count '!' ++ ['a']) =
      List.replicate count (.ofSign .bang) ++ [⟨.ident, "a"⟩] ++ [Token.eof] := by
  induction count with
  | zero => decide +kernel
  | succ count ih =>
      have hrest : ∀ c ∈ (List.replicate count '!' ++ ['a']).head?, c ≠ '=' := by
        cases count <;> simp [List.replicate_succ]
      have hfirst := munch_ofSign .bang hrest
      rw [ih] at hfirst
      exact hfirst

/-- A statement without blocks whose expression is nested deeper than 100 levels is one error, and
the text after its semicolon is parsed as if it stood alone. -/
theorem parse_append_of_nesting {source : String} {tree : Statement} {nesting : Nat}
    {tokens : List Token} (rest : String) (hd : Derives (.statement false tree) nesting tokens)
    (hn : 100 < nesting)
    (hb : ∀ token ∈ tokens, token.kind ≠ .sign .leftBrace ∧ token.kind ≠ .sign .rightBrace)
    (hi : ∀ token ∈ tokens, token.kind = .int →
      token.literal.toList.length ≤ 4300 ∧ decimalValue token.literal.toList ≤ maxInteger)
    (ht : tokenize source = tokens ++ [Token.eof]) :
    (parse (source ++ ";" ++ rest)).errors =
        "expression nested too deeply" :: (parse rest).errors ∧
      (parse (source ++ ";" ++ rest)).program.statements = (parse rest).program.statements := by
  have hsource : (Parser.ofSource source).tokens = tokens := List.append_cancel_right ht
  have hr : Parser.Readable tokens := Parser.readable_of_tokenize hi ht
  have hclosed : (Parser.ofSource (source ++ ";")).tokens = tokens ++ [.ofSign .semicolon] :=
    hsource ▸ Parser.tokens_semicolon source
  obtain ⟨hnone, hone⟩ := Parser.parse_of_nesting hd hr hb hn hclosed
  have hplain : ∀ token ∈ (Parser.ofSource source).tokens, token.kind ≠ .sign .leftBrace :=
    fun token hm => (hb token (hsource ▸ hm)).1
  obtain ⟨hstatements, herrors⟩ :=
    Parser.parse_of_continues (Parser.continues_of_semicolon rest (.inl hplain))
  rw [herrors, hstatements, hone, hnone]
  exact ⟨rfl, rfl⟩

/-- The 101st level is the one too many. -/
theorem parse_append_of_nesting_bangs :
    let source := String.ofList (List.replicate 100 '!' ++ ['a'])
    (parse (source ++ ";" ++ "let y = 1; )")).errors =
        "expression nested too deeply" :: (parse "let y = 1; )").errors ∧
      (parse (source ++ ";" ++ "let y = 1; )")).program.statements =
        (parse "let y = 1; )").program.statements := by
  intro source
  have hvalue := (derives_bangs 100).loosen (s := .equality) (by decide)
  have htokens : tokenize source =
      List.replicate 100 (.ofSign .bang) ++ [⟨.ident, "a"⟩] ++ [Token.eof] := by
    rw [← munch_bangs, ← String.toList_ofList (l := List.replicate 100 '!' ++ ['a']),
      ← Parser.munch_source, ← Parser.tokens_ofSource]
  exact parse_append_of_nesting "let y = 1; )" (.bare hvalue) (by decide) (by decide) (by decide)
    htokens

end MonkeyFront
