import MonkeyFront.Proofs.Parser.SideBySide

/-!
# Malformed statements before a closing brace

A binding or a return that is given up skips to its end and stops before a closing brace, so that
the block around it can close. The brace is safe as long as the parser has not come to it. It comes
to it where the token before the brace awaits an expression: the brace itself is refused then, and
skipping, which only looks for a brace at the next token, goes on to the end of a later statement.
-/

namespace MonkeyFront

/-- Whether a token of this kind neither ends a statement nor opens or closes a block. -/
def Kind.isInner : Kind → Bool
  | .eof | .sign .semicolon | .sign .leftBrace | .sign .rightBrace => false
  | _ => true

namespace Parser

open Rule

/-! ## Skipping -/

theorem fromStatementEnd_of_inner {ahead rest : List Lexeme} {last brace : Lexeme}
    (h : ∀ lexeme ∈ ahead ++ [last], lexeme.kind.isInner = true)
    (hb : brace.kind = .sign .rightBrace) :
    fromStatementEnd (ahead ++ last :: brace :: rest) = last :: brace :: rest := by
  induction ahead with
  | nil => simp [fromStatementEnd, hb]
  | cons first ahead ih =>
      have hfirst : first.kind.isInner = true := h first (by simp)
      have hothers : ∀ lexeme ∈ ahead ++ [last], lexeme.kind.isInner = true :=
        fun lexeme hm => h lexeme (List.mem_cons_of_mem _ hm)
      have hnext : (ahead ++ last :: brace :: rest).head?.map (·.kind) ≠
          some (.sign .rightBrace) := by
        intro hk
        cases ahead with
        | nil =>
            have := hothers last (by simp)
            simp_all [Kind.isInner]
        | cons second ahead =>
            have := hothers second (by simp)
            simp_all [Kind.isInner]
      rw [List.cons_append, fromStatementEnd, if_neg, ih hothers]
      rintro (hk | hk | hk)
      · simp [hk, Kind.isInner] at hfirst
      · simp [hk, Kind.isInner] at hfirst
      · exact hnext hk

theorem fromStatementEnd_fromStatementEnd (lexemes : List Lexeme) :
    fromStatementEnd (fromStatementEnd lexemes) = fromStatementEnd lexemes := by
  induction lexemes with
  | nil => rfl
  | cons first others ih =>
      rw [fromStatementEnd]
      split
      next hk => rw [fromStatementEnd, if_pos hk]
      next => exact ih

/-! ## Before the brace and on it -/

section Brace

variable (last brace : Lexeme) (rest : List Lexeme)

/-- The brace is still to come, and no statement ends and no block opens before it. -/
def BeforeBrace (parser : Parser) : Prop :=
  ∃ ahead, (∀ lexeme ∈ ahead ++ [last], lexeme.kind.isInner = true) ∧
    parser.upcoming = ahead ++ last :: brace :: rest

/-- The brace is under examination, where an expression has to start. -/
def OnBrace (parser : Parser) : Prop :=
  last.kind.awaitsExpression = true ∧ parser.upcoming = brace :: rest

/-- The last report says that no expression starts with a closing brace, or that one nests too
deeply. -/
def RefusedBrace (parser : Parser) : Prop :=
  ∃ report, parser.reports.back? = some report ∧
    (report.diagnostic = .noOperand (.sign .rightBrace) ∨ report.diagnostic = .tooDeep)

/-- The brace was refused as the start of an expression, and is given up with the statement. -/
def PastBrace (parser : Parser) : Prop :=
  last.kind.awaitsExpression = true ∧ RefusedBrace parser ∧
    fromStatementEnd parser.upcoming = fromStatementEnd (brace :: rest)

/-- The parser has not gone beyond the brace. -/
def UpToBrace (parser : Parser) : Prop :=
  BeforeBrace last brace rest parser ∨ OnBrace last brace rest parser

/-- A rule gave up, before the brace or on it. -/
def GivenUp (parser : Parser) : Prop :=
  BeforeBrace last brace rest parser ∨ PastBrace last brace rest parser

end Brace

/-- One parser, taken twice. -/
def Twice (P : Parser → Prop) (p q : Parser) : Prop := p = q ∧ P p

section Coupled

variable {last brace : Lexeme} {rest : List Lexeme} {parser : Parser}

theorem BeforeBrace.currentToken (h : BeforeBrace last brace rest parser) :
    parser.currentToken.kind.isInner = true := by
  obtain ⟨_ | ⟨first, ahead⟩, hin, hu⟩ := h
  · rw [Parser.currentToken, hu]
    exact hin last (by simp)
  · rw [Parser.currentToken, hu]
    exact hin first (by simp)

theorem OnBrace.currentToken (hb : brace.kind = .sign .rightBrace)
    (h : OnBrace last brace rest parser) :
    parser.currentToken.kind = .sign .rightBrace := by
  rw [Parser.currentToken, h.2]
  exact hb

/-- The parser goes on before the brace, or from the last token onto it. -/
theorem BeforeBrace.advance (h : BeforeBrace last brace rest parser) :
    BeforeBrace last brace rest parser.advance ∨
      parser.currentToken.kind = last.kind ∧ parser.advance.upcoming = brace :: rest := by
  obtain ⟨_ | ⟨first, ahead⟩, hin, hu⟩ := h
  · exact .inr ⟨by rw [Parser.currentToken, hu]; rfl, by simp [Parser.advance, hu]⟩
  · exact .inl ⟨ahead, fun lexeme hm => hin lexeme (List.mem_cons_of_mem _ hm),
      by simp [Parser.advance, hu]⟩

theorem BeforeBrace.advance_of_peek (hb : brace.kind = .sign .rightBrace)
    (h : BeforeBrace last brace rest parser)
    (hk : parser.peekToken.kind ≠ .sign .rightBrace) :
    BeforeBrace last brace rest parser.advance := by
  refine h.advance.resolve_right fun ⟨_, hu⟩ => hk ?_
  rw [← currentToken_advance, Parser.currentToken, hu]
  exact hb

theorem BeforeBrace.upcoming_skipStatement (hb : brace.kind = .sign .rightBrace)
    (h : BeforeBrace last brace rest parser) :
    parser.skipStatement.upcoming = last :: brace :: rest := by
  obtain ⟨ahead, hin, hu⟩ := h
  rw [skipStatement, hu]
  exact fromStatementEnd_of_inner hin hb

theorem BeforeBrace.skipStatement (hb : brace.kind = .sign .rightBrace)
    (h : BeforeBrace last brace rest parser) :
    BeforeBrace last brace rest parser.skipStatement := by
  have ⟨_, hin, _⟩ := h
  refine ⟨[], fun lexeme hm => hin lexeme ?_, h.upcoming_skipStatement hb⟩
  exact List.mem_append_right _ hm

theorem PastBrace.skipStatement (h : PastBrace last brace rest parser) :
    PastBrace last brace rest parser.skipStatement := by
  obtain ⟨ha, hr, hu⟩ := h
  refine ⟨ha, hr, ?_⟩
  rw [Parser.skipStatement, fromStatementEnd_fromStatementEnd, hu]

theorem OnBrace.pastBrace (hb : brace.kind = .sign .rightBrace)
    (h : OnBrace last brace rest parser) {diagnostic : Diagnostic}
    (hd : diagnostic = .tooDeep ∨ diagnostic = .ofStray parser.currentToken) :
    PastBrace last brace rest (parser.report diagnostic) := by
  have hkind := h.currentToken hb
  obtain ⟨ha, hu⟩ := h
  refine ⟨ha, ⟨⟨diagnostic, parser.upcoming.length - window⟩, by simp [report], ?_⟩, ?_⟩
  · rcases hd with rfl | rfl
    · exact .inr rfl
    · exact .inl (by simp [Diagnostic.ofStray, hkind])
  · rw [report, hu]

end Coupled

theorem coupling_brace (last : Lexeme) {brace : Lexeme} (hb : brace.kind = .sign .rightBrace)
    (rest : List Lexeme) :
    Coupling (Twice (UpToBrace last brace rest)) (Twice (BeforeBrace last brace rest))
      (Twice (GivenUp last brace rest)) where
  near := fun ⟨he, h⟩ => ⟨he, .inl h⟩
  current := fun ⟨he, _⟩ => he ▸ rfl
  peek := fun ⟨he, _⟩ => he ▸ rfl
  before := fun ⟨he, h⟩ hk =>
    ⟨he, h.resolve_right fun h => by simp [h.currentToken hb, Kind.closes] at hk⟩
  advance := fun ⟨he, h⟩ hk =>
    ⟨he ▸ rfl, h.advance_of_peek hb fun he => by simp [he, Kind.closes] at hk⟩
  next := fun ⟨he, h⟩ ha => ⟨he ▸ rfl, h.advance.imp_right fun ⟨hc, hu⟩ => ⟨hc ▸ ha, hu⟩⟩
  close := fun ⟨he, h⟩ hk =>
    ⟨he ▸ rfl, .inl (h.advance_of_peek hb fun he => by simp [peekIs, he] at hk)⟩
  enter := fun ⟨he, h⟩ => ⟨he ▸ rfl, h⟩
  leave := fun ⟨he, h⟩ => ⟨he ▸ rfl, h⟩
  refuse := fun ⟨he, h⟩ _ => ⟨he ▸ rfl, .inl h⟩
  refuseHere := fun ⟨he, h⟩ _ hd => ⟨he ▸ rfl, h.imp_right (OnBrace.pastBrace hb · hd)⟩
  leaveGivenUp := fun ⟨he, h⟩ => ⟨he ▸ rfl, h⟩
  skip := fun ⟨he, h⟩ => ⟨he ▸ rfl, h.imp (·.skipStatement hb) (·.skipStatement)⟩
  drop := fun ⟨he, h⟩ => ⟨he ▸ rfl, h⟩

theorem blocksAlike_brace {last brace : Lexeme} {rest : List Lexeme}
    {W F : Parser → Parser → Prop} : BlocksAlike W (Twice (BeforeBrace last brace rest)) F := by
  intro nested p q _ ⟨_, h⟩ hk
  have := h.currentToken
  simp [hk, Kind.isInner] at this

/-! ## Giving up -/

/-- Where giving up leaves a parser: before the brace, which is next, unless the last token before
the brace awaits an expression. In that case the brace may have been refused as the start of the
expression, and the parser stands where a search from the brace on finds the end of a statement. -/
def GivesUpAtBrace (last brace : Lexeme) (rest : List Lexeme) (after : Parser) : Prop :=
  after.upcoming = last :: brace :: rest ∨
    last.kind.awaitsExpression = true ∧ RefusedBrace after ∧
      after.upcoming = fromStatementEnd (brace :: rest)

/-- A binding or a return before a closing brace, with no semicolon and no block in between, is
given up before the brace, or on it. -/
theorem gaveUp_before_brace {room : Nat} {parser after : Parser} {front rest : List Lexeme}
    {last brace : Lexeme} (hu : parser.upcoming = front ++ last :: brace :: rest)
    (hin : ∀ lexeme ∈ front ++ [last], lexeme.kind.isInner = true)
    (hb : brace.kind = .sign .rightBrace)
    (h : parser.currentToken.kind = .keyword .letWord ∧
        binding (nestedIn room) parser = (none, after) ∨
      parser.currentToken.kind = .keyword .returnWord ∧
        result (nestedIn room) parser = (none, after)) :
    GivesUpAtBrace last brace rest after := by
  have hC := coupling_brace last hb rest
  have hn := hC.nestedIn blocksAlike_brace room
  have hstart : BeforeBrace last brace rest parser := ⟨front, hin, hu⟩
  have hskip {p q : Parser} (h : Twice (GivenUp last brace rest) p q) :
      Twice (GivesUpAtBrace last brace rest) p.skipStatement q.skipStatement := by
    obtain ⟨rfl, h | ⟨ha, hr, hu⟩⟩ := h
    · exact ⟨rfl, .inl (h.upcoming_skipStatement hb)⟩
    · exact ⟨rfl, .inr ⟨ha, hr, hu⟩⟩
  rcases h with ⟨hk, hrun⟩ | ⟨hk, hrun⟩
  · obtain ⟨_, _, _, hend⟩ := (hC.binding hn hskip ⟨rfl, .inl hstart⟩ hk).of_none hrun
    exact hend
  · obtain ⟨_, _, _, hend⟩ := (hC.result hn hskip ⟨rfl, .inl hstart⟩ hk).of_none hrun
    exact hend

/-- A binding without its equals sign is given up before the brace. -/
theorem gaveUp_before_brace_binding :
    let parser := ofSource "let x 5 \x7d y"
    let last : Lexeme := ⟨⟨.int, "5"⟩, 6, 7⟩
    let brace : Lexeme := ⟨⟨.sign .rightBrace, "\x7d"⟩, 8, 9⟩
    let rest : List Lexeme := [⟨⟨.ident, "y"⟩, 10, 11⟩]
    let after := (binding (nestedIn maxDepth) parser).2
    parser.currentToken.kind = .keyword .letWord ∧
      (binding (nestedIn maxDepth) parser).1 = none ∧ GivesUpAtBrace last brace rest after := by
  intro parser last brace rest after
  have hk : parser.currentToken.kind = .keyword .letWord := by decide +kernel
  have hnone : (binding (nestedIn maxDepth) parser).1 = none := by decide +kernel
  have hu : parser.upcoming =
      [⟨⟨.keyword .letWord, "let"⟩, 0, 3⟩, ⟨⟨.ident, "x"⟩, 4, 5⟩] ++ last :: brace :: rest := by
    decide +kernel
  have hrun : binding (nestedIn maxDepth) parser = (none, after) := Prod.ext hnone rfl
  exact ⟨hk, hnone, gaveUp_before_brace hu (by decide +kernel) rfl (.inl ⟨hk, hrun⟩)⟩

/-- A return without a value comes to the brace itself and goes past it to the end of the source. -/
theorem result_goes_past_brace :
    let parser := ofSource "return \x7d 5"
    let after := (result (nestedIn maxDepth) parser).2
    parser.tokens.map (·.kind) = [.keyword .returnWord, .sign .rightBrace, .int] ∧
      (result (nestedIn maxDepth) parser).1 = none ∧
      after.peekToken.kind ≠ .sign .rightBrace ∧ after.currentToken.kind = .eof := by
  decide +kernel

end Parser

end MonkeyFront
