import MonkeyFront.Proofs.Parser.SideBySide

/-!
# Nothing but the tokens matters

Where the tokens to come stood in the source, what was reported before and how many levels were open
play no part in what a rule does: parsers before the same tokens run alike to the end.
-/

namespace MonkeyFront.Parser

open Rule

/-- What was reported, without the places. -/
def diagnostics (parser : Parser) : List Diagnostic := parser.reports.toList.map (·.diagnostic)

@[simp] theorem diagnostics_report (parser : Parser) (diagnostic : Diagnostic) :
    (parser.report diagnostic).diagnostics = parser.diagnostics ++ [diagnostic] := by
  simp [diagnostics, report]

/-- Two parsers before the same tokens, one of which reported some diagnostics earlier than the
other. -/
structure SameTokens (earlier : List Diagnostic) (p q : Parser) : Prop where
  tokens : p.tokens = q.tokens
  diagnostics : p.diagnostics = earlier ++ q.diagnostics

namespace SameTokens

variable {earlier : List Diagnostic} {p q : Parser}

theorem currentToken (h : SameTokens earlier p q) : p.currentToken = q.currentToken := by
  rw [currentToken_eq, currentToken_eq, h.tokens]

theorem peekToken (h : SameTokens earlier p q) : p.peekToken = q.peekToken := by
  rw [peekToken_eq, peekToken_eq, h.tokens]

theorem advance (h : SameTokens earlier p q) : SameTokens earlier p.advance q.advance :=
  ⟨by rw [tokens_advance, tokens_advance, h.tokens], h.diagnostics⟩

theorem report (h : SameTokens earlier p q) (diagnostic : Diagnostic) :
    SameTokens earlier (p.report diagnostic) (q.report diagnostic) :=
  ⟨h.tokens, by simp [h.diagnostics]⟩

theorem skipStatement (h : SameTokens earlier p q) :
    SameTokens earlier p.skipStatement q.skipStatement :=
  skipStatement_related
    (fun h => by simp only [endsStatement, currentIs, peekIs, h.currentToken, h.peekToken])
    (fun h _ => h.advance) h

end SameTokens

/-- What a rule does depends on the tokens to come and on nothing else. -/
theorem coupling_sameTokens (earlier : List Diagnostic) :
    Coupling (SameTokens earlier) (SameTokens earlier) (SameTokens earlier) where
  near h := h
  current h := h.currentToken
  peek h := h.peekToken
  before h _ := h
  advance h _ := h.advance
  next h _ := h.advance
  close h _ := h.advance
  enter h := ⟨h.tokens, h.diagnostics⟩
  leave h := ⟨h.tokens, h.diagnostics⟩
  refuse h := h.report
  refuseHere h diagnostic _ := h.report diagnostic
  leaveGivenUp h := ⟨h.tokens, h.diagnostics⟩
  skip h := h.skipStatement
  drop h := ⟨h.tokens, h.diagnostics⟩

section Rows

variable {earlier : List Diagnostic} {nested : Nested} {p q : Parser}

theorem alike_row
    (hn : NestedAlike (SameTokens earlier) (SameTokens earlier) (SameTokens earlier) nested)
    {goOn : Parser → Bool} {takes : Takes goOn (statementOrGap nested)}
    (hgo : ∀ {p q}, SameTokens earlier p q → goOn p = goOn q) (h : SameTokens earlier p q) :
    Alike (SameTokens earlier) (SameTokens earlier)
      (many goOn (statementOrGap nested) takes p) (many goOn (statementOrGap nested) takes q) := by
  refine Alike.many (P := SameTokens earlier) hgo (fun h _ => ?_) h
  obtain ⟨kept, after, last, hw, hp, hq⟩ :=
    (coupling_sameTokens earlier).statementOrGap hn (fun h => h) h
  rw [hp, hq]
  exact .yields hw.advance

theorem blocksAlike_sameTokens (earlier : List Diagnostic) :
    BlocksAlike (SameTokens earlier) (SameTokens earlier) (SameTokens earlier) := by
  intro nested p q hn h _
  unfold block
  rw [current_bind, current_bind, ← h.currentToken, skip_bind, skip_bind]
  refine (alike_row hn (fun h => ?_) h.advance).bind fun h => ?_
  · simp only [insideBlock, currentIs, h.currentToken]
  · rw [see_bind, see_bind, currentIs, h.currentToken, ← currentIs]
    split
    · exact .gaveUp (h.report _)
    · exact .yields h

/-- The statements up to the end are the same for parsers before the same tokens. -/
theorem alike_statementsOrGaps (room : Nat) (h : SameTokens earlier p q) :
    Alike (SameTokens earlier) (SameTokens earlier) (statementsOrGaps (nestedIn room) p)
      (statementsOrGaps (nestedIn room) q) := by
  have hn := (coupling_sameTokens earlier).nestedIn (blocksAlike_sameTokens earlier) room
  refine alike_row hn (fun h => ?_) h
  simp only [beforeEnd, currentIs, h.currentToken]

end Rows

/-! ## Sources -/

theorem parse_of_statementsOrGaps {source : String} {values : List (Option Statement)}
    {after : Parser}
    (h : statementsOrGaps (nestedIn maxDepth) (ofSource source) = (some values, after)) :
    (parse source).program.statements = values.filterMap id ∧
      (parse source).errors = after.diagnostics.map Diagnostic.message := by
  have hrun : program (nestedIn maxDepth) (ofSource source) =
      (some ⟨values.filterMap id⟩, after) := bind_of_some h _
  rw [parse_of_run hrun]
  exact ⟨rfl, by simp [Parsed.errors, diagnostics]⟩

/-- Sources with the same tokens are the same program with the same errors. -/
theorem parse_of_tokens {a b : String} (h : tokenize a = tokenize b) :
    (parse a).program = (parse b).program ∧ (parse a).errors = (parse b).errors := by
  have htokens : (ofSource a).tokens = (ofSource b).tokens :=
    tokens_of_tokenize (h.trans (tokens_ofSource b))
  have hsame : SameTokens [] (ofSource a) (ofSource b) := ⟨htokens, rfl⟩
  obtain ⟨values, after, ha, -⟩ := program_run (nestedIn maxDepth) (ofSource a)
  obtain ⟨after', hb, hafter⟩ := (alike_statementsOrGaps maxDepth hsame).of_some ha
  obtain ⟨hpa, hea⟩ := parse_of_statementsOrGaps ha
  obtain ⟨hpb, heb⟩ := parse_of_statementsOrGaps hb
  refine ⟨congrArg Program.mk (hpa.trans hpb.symm), ?_⟩
  rw [hea, heb, hafter.diagnostics, List.nil_append]

end MonkeyFront.Parser
