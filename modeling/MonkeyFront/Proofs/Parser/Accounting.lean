import MonkeyFront.Proofs.Parser.Contract

/-!
# Every report is that of one statement

A rule that gives up has made one report, whatever it called before, and a statement that is given
up is counted once. What statements in blocks were given up on the way is counted with them, so the
reports are as many as the statements that were given up, at any depth.
-/

namespace MonkeyFront.Parser

open Rule

/-- Each statement that was given up left a report, and giving up itself leaves one more. -/
def Balanced (first : Parser) (gaveUp : Bool) (last : Parser) : Prop :=
  ∃ dropped, last.tally.dropped = first.tally.dropped + dropped ∧
    last.reports.size = first.reports.size + dropped + gaveUp.toNat

theorem Balanced.trans {first middle last : Parser} {gaveUp : Bool}
    (h : Balanced first false middle) (hl : Balanced middle gaveUp last) :
    Balanced first gaveUp last := by
  obtain ⟨m, hm, hr⟩ := h
  obtain ⟨n, hn, hs⟩ := hl
  refine ⟨m + n, by omega, ?_⟩
  simp only [Bool.toNat_false] at hr
  omega

/-- A statement that is given up turns its own report into that of a statement. -/
theorem Balanced.countDropped {first last : Parser} (h : Balanced first true last) :
    Balanced first false last.countDropped := by
  obtain ⟨n, hn, hs⟩ := h
  refine ⟨n + 1, ?_, ?_⟩
  · simp only [Parser.countDropped, hn, Nat.add_assoc]
  · simpa [Parser.countDropped, Nat.add_assoc] using hs

theorem contract_balanced : Contract Balanced where
  stay _ := ⟨0, rfl, rfl⟩
  next _ := ⟨0, rfl, rfl⟩
  refuse _ := ⟨0, rfl, by simp [report]⟩
  andThen h hl := h.trans hl
  goOn h := h
  drop h := h.countDropped

theorem balanced_nestedIn (room : Nat) (strength : Precedence) :
    Keeps Balanced ((nestedIn room).parse strength) :=
  Contract.nestedIn (C := fun _ => Balanced) (fun _ => contract_balanced) id room strength

/-- A statement that is given up leaves one report besides those of the statements in its blocks,
and a statement that is kept leaves none. -/
theorem reports_statement (room : Nat) (parser : Parser) :
    ∃ inside,
      (statement (nestedIn room) parser).2.tally.dropped =
        parser.tally.dropped + inside + (statement (nestedIn room) parser).1.isNone.toNat ∧
      (statement (nestedIn room) parser).2.reports.size =
        parser.reports.size + inside + (statement (nestedIn room) parser).1.isNone.toNat := by
  rcases contract_balanced.statement_cases (balanced_nestedIn room) parser with
    ⟨value, after, he, inside, hd, hr⟩ | ⟨after, he, inside, hd, hr⟩
  · exact ⟨inside, by simp [he, hd], by simp [he, hr]⟩
  · refine ⟨inside, ?_, ?_⟩
    · simp [he, countDropped, hd]
    · simp [he, countDropped, hr]

/-- The parser behind the last statement of a source. -/
def atEnd (source : String) : Parser := (withRoom program (ofSource source)).2

theorem program_atEnd (source : String) :
    ∃ values, statementsOrGaps (nestedIn maxDepth) (ofSource source) =
        (some values, atEnd source) ∧
      program (nestedIn maxDepth) (ofSource source) =
        (some ⟨values.filterMap id⟩, atEnd source) := by
  obtain ⟨values, after, hrows, hrun⟩ := program_run (nestedIn maxDepth) (ofSource source)
  obtain rfl : atEnd source = after := congrArg Prod.snd hrun
  exact ⟨values, hrows, hrun⟩

theorem reports_parse (source : String) :
    (parse source).reports = (atEnd source).reports.toList := by
  obtain ⟨values, -, hrun⟩ := program_atEnd source
  rw [parse_of_run hrun]

theorem length_reports_parse (source : String) :
    (parse source).reports.length = (atEnd source).tally.dropped := by
  obtain ⟨values, -, hrun⟩ := program_atEnd source
  obtain ⟨dropped, hd, hr⟩ :=
    (contract_balanced.program (balanced_nestedIn maxDepth)).of_some hrun
  have hstart : (ofSource source).reports.size = (ofSource source).tally.dropped := rfl
  rw [reports_parse, Array.length_toList, hr, hd, hstart, Bool.toNat_false, Nat.add_zero]

end MonkeyFront.Parser

namespace MonkeyFront

/-- A source leaves as many errors as statements are given up in it, blocks included: a statement
that is given up leaves one report besides those of the statements inside it, and a statement that
is kept leaves none. -/
theorem errors_count_dropped (source : String) :
    (parse source).errors.length = (Parser.atEnd source).tally.dropped ∧
    ((parse source).errors = [] ↔ (Parser.atEnd source).tally.dropped = 0) ∧
    ∀ (room : Nat) (parser : Parser),
      let run := Parser.statement (Parser.nestedIn room) parser
      ∃ inside, run.2.tally.dropped = parser.tally.dropped + inside + run.1.isNone.toNat ∧
        run.2.reports.size = parser.reports.size + inside + run.1.isNone.toNat := by
  have hcount : (parse source).errors.length = (Parser.atEnd source).tally.dropped := by
    rw [Parsed.errors, List.length_map, Parser.length_reports_parse]
  refine ⟨hcount, ?_, Parser.reports_statement⟩
  rw [← hcount, List.length_eq_zero_iff]

end MonkeyFront
