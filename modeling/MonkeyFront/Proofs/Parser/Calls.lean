import MonkeyFront.Parser.Call
import MonkeyFront.Proofs.Parser.Contract
import MonkeyFront.Proofs.Scanner.LongestMatch

/-!
# Calls in any order

Whatever is called on a parser, and wherever it stands, the parser stays on the tokens of its source
and never goes back, the levels that a call opens are closed again, and what was reported stays.
-/

namespace MonkeyFront.Parser

open Rule

/-! ## What a call may do -/

/-- A run that opened at most `room` levels and closed them again, went back over no lexeme and took
back no report. -/
structure Within (room : Nat) (first last : Parser) : Prop where
  upcoming : last.upcoming <:+ first.upcoming
  depth : last.depth = first.depth
  deepest : last.tally.deepest ≤ max first.tally.deepest (first.depth + room)
  reports : first.reports.toList <+: last.reports.toList

namespace Within

variable {room : Nat} {first middle last : Parser}

theorem refl (parser : Parser) : Within room parser parser :=
  ⟨List.suffix_rfl, rfl, Nat.le_max_left _ _, List.prefix_rfl⟩

theorem trans (h : Within room first middle) (hl : Within room middle last) :
    Within room first last where
  upcoming := hl.upcoming.trans h.upcoming
  depth := hl.depth.trans h.depth
  deepest := by
    have hf := h.deepest
    have hm := hl.deepest
    rw [h.depth] at hm
    omega
  reports := h.reports.trans hl.reports

theorem advance (h : Within room first last) : Within room first last.advance :=
  { h with upcoming := (List.tail_suffix _).trans h.upcoming }

theorem report (h : Within room first last) (diagnostic : Diagnostic) :
    Within room first (last.report diagnostic) :=
  { h with reports := h.reports.trans (by simp [Parser.report]) }

/-- The level that a run was in leaves one fewer for it. -/
theorem level (h : Within room first.enter last) : Within (room + 1) first last.leave where
  upcoming := h.upcoming
  depth := by simp [leave, h.depth, enter]
  deepest := by
    have := h.deepest
    simp only [enter] at this
    simp only [leave]
    omega
  reports := h.reports

end Within

theorem contract_within (room : Nat) : Contract fun first _ last => Within room first last where
  stay := .refl
  next parser := (Within.refl parser).advance
  refuse _ := (Within.refl _).report _
  andThen h hl := h.trans hl
  goOn h := h.advance
  drop h := ⟨h.upcoming, h.depth, h.deepest, h.reports⟩

theorem within_nestedIn (room : Nat) (strength : Precedence) :
    Keeps (fun first _ last => Within room first last) ((nestedIn room).parse strength) :=
  Contract.nestedIn (C := fun room first _ last => Within room first last) contract_within
    Within.level room strength

/-- No call does more than its parser has room for. -/
theorem within_run (parser : Parser) (call : Call) :
    Within parser.room parser (call.run parser).2 := by
  have hC := contract_within parser.room
  have hn := within_nestedIn parser.room
  cases call with
  | advance => exact (Within.refl parser).advance
  | skipStatement =>
      exact skipStatement_induction (P := Within parser.room parser) (fun _ => Within.advance)
        parser (.refl parser)
  | program => exact hC.program hn parser
  | statement => exact hC.statement hn parser
  | binding => exact hC.binding hn parser
  | result => exact hC.result hn parser
  | expressionStatement => exact hC.expressionStatement hn parser
  | block => exact hC.block hn parser
  | identifier => exact hC.identifier parser
  | integer => exact hC.integer parser
  | boolean => exact hC.boolean parser
  | unary => exact hC.unary hn parser
  | group => exact hC.group hn parser
  | conditional => exact hC.conditional hn parser
  | function => exact hC.function hn parser
  | parameters => exact hC.parameters parser
  | arguments => exact hC.arguments hn parser
  | expression strength => exact hn strength parser
  | binary left => exact hC.binary hn left parser
  | call callee => exact hC.call hn callee parser
  | expect kind =>
      -- The kind is the caller's and may be none of the closed set.
      simp only [Call.run, Rule.expect]
      split
      · exact (Within.refl parser).advance
      · exact (Within.refl parser).report _
  | currentIs | peekIs | currentPrecedence | peekPrecedence | errors => exact .refl parser
  | unexpected | stray | remark => exact (Within.refl parser).report _

/-! ## Places in a source -/

/-- The token of a source at a place. The end token stands at every place past the other tokens. -/
def tokenAt (source : String) (place : Nat) : Token := (tokenize source).getD place Token.eof

/-- How many lexemes of a source a parser has left behind. -/
def place (source : String) (parser : Parser) : Nat :=
  (lexemesOf source).length - parser.upcoming.length

/-- A parser between calls: it stands in the source, and no level is open. -/
structure Between (source : String) (parser : Parser) : Prop where
  upcoming : parser.upcoming <:+ lexemesOf source
  depth : parser.depth = 0
  deepest : parser.tally.deepest ≤ maxDepth

namespace Between

variable {source : String} {parser : Parser}

theorem ofSource (source : String) : Between source (ofSource source) :=
  ⟨List.suffix_rfl, rfl, Nat.zero_le _⟩

theorem run (h : Between source parser) (call : Call) : Between source (call.run parser).2 := by
  have hw := within_run parser call
  refine ⟨hw.upcoming.trans h.upcoming, hw.depth.trans h.depth, ?_⟩
  have hroom : parser.depth + parser.room = maxDepth := by simp [room, h.depth]
  rw [← hroom]
  exact Nat.le_trans hw.deepest (Nat.max_le.mpr ⟨hroom ▸ h.deepest, Nat.le_refl _⟩)

theorem afterCalls (h : Between source parser) (calls : List Call) :
    Between source (afterCalls parser calls) := by
  induction calls generalizing parser with
  | nil => exact h
  | cons call calls ih => exact ih (h.run call)

/-- The lexemes to come are those from the place of the parser on. -/
theorem tokens_getD (h : Between source parser) (ahead : Nat) :
    parser.tokens.getD ahead Token.eof = tokenAt source (parser.place source + ahead) := by
  obtain ⟨behind, hb⟩ := h.upcoming
  have hplace : parser.place source = behind.length := by
    rw [place, ← hb, List.length_append]
    omega
  rw [hplace, tokenAt, tokenize, ← hb]
  simp only [List.map_append, List.append_assoc, List.getD_eq_getElem?_getD]
  rw [List.getElem?_append_right (by simp)]
  simp only [List.length_map, Nat.add_sub_cancel_left]
  rw [show parser.upcoming.map (·.token) = parser.tokens from rfl]
  by_cases hlt : ahead < parser.tokens.length
  · rw [List.getElem?_append_left hlt]
  · rw [List.getElem?_append_right (by omega), List.getElem?_eq_none (by omega)]
    cases ahead - parser.tokens.length <;> rfl

theorem currentToken (h : Between source parser) :
    parser.currentToken = tokenAt source (parser.place source) := by
  rw [← Nat.add_zero (parser.place source), ← h.tokens_getD, currentToken_eq]
  cases parser.tokens <;> rfl

theorem peekToken (h : Between source parser) :
    parser.peekToken = tokenAt source (parser.place source + 1) := by
  rw [← h.tokens_getD, peekToken_eq]
  match parser.tokens with
  | [] | [_] | _ :: _ :: _ => rfl

end Between

/-- Calls in any order on a parser for a source end: no fault stops the scanner, and after each call
the parser has two tokens of the source in view that follow each other, at no earlier place than
before; no level is open, though at most all of them were; and the errors are those from before, and
then the new ones. -/
theorem call_run_ofSource (source : String) (calls : List Call) (call : Call) :
    let before := afterCalls (ofSource source) calls
    let after := (call.run before).2
    (Scanner.ofSource source).drain.fault = none ∧
    after.currentToken = tokenAt source (after.place source) ∧
    after.peekToken = tokenAt source (after.place source + 1) ∧
    before.place source ≤ after.place source ∧
    before.depth = 0 ∧ after.depth = 0 ∧ after.tally.deepest ≤ maxDepth ∧
    before.errors <+: after.errors := by
  intro before after
  have hb : Between source before := (Between.ofSource source).afterCalls calls
  have ha : Between source after := hb.run call
  have hw : Within before.room before after := within_run before call
  exact ⟨Scanner.fault_drain (Scanner.ready_ofSource source), ha.currentToken, ha.peekToken,
    Nat.sub_le_sub_left hw.upcoming.length_le _, hb.depth, ha.depth, ha.deepest,
    hw.reports.map _⟩

end MonkeyFront.Parser
