import MonkeyFront.Log
import MonkeyFront.Proofs.Parser.Accounting
import MonkeyFront.Proofs.Parser.Calls
import MonkeyFront.Proofs.Parser.Soundness

/-!
# What a parser logs

A parser takes one lexeme from the scanner each time it goes on, and that is when an illegal one is
logged; a report is logged when it is made. Whatever the parser does, and wherever it gives up, it
comes to the end of the source, so that each lexeme is taken once, and the log is what the reports
tell it to be.
-/

namespace MonkeyFront.Parser

open Rule

/-! ## Lines on the way -/

/-- The lexemes that the scanner has not been asked for yet. -/
def waiting (parser : Parser) : List Lexeme := parser.upcoming.drop window

@[simp] theorem waiting_advance (parser : Parser) :
    parser.advance.waiting = parser.waiting.drop 1 := by
  simp [waiting, advance]

/-- The lines that are logged on the way from one parser to another. -/
inductive Logs : Parser → List LogLine → Parser → Prop
  | stay (parser : Parser) : Logs parser [] parser
  /-- Going on brings the next lexeme into view. -/
  | next (parser : Parser) : Logs parser (scanLog (parser.waiting.take 1)) parser.advance
  | report (parser : Parser) (diagnostic : Diagnostic) :
      Logs parser [Report.logLine ⟨diagnostic, parser.waiting.length⟩] (parser.report diagnostic)
  | enter (parser : Parser) : Logs parser [] parser.enter
  | leave (parser : Parser) : Logs parser [] parser.leave
  | drop (parser : Parser) : Logs parser [] parser.countDropped
  | andThen {first middle last : Parser} {lines more : List LogLine} (h : Logs first lines middle)
      (hl : Logs middle more last) : Logs first (lines ++ more) last

theorem contract_logs : Contract fun first _ last => ∃ lines, Logs first lines last where
  stay parser := ⟨_, .stay parser⟩
  next parser := ⟨_, .next parser⟩
  refuse _ := ⟨_, .report _ _⟩
  andThen := fun ⟨_, h⟩ ⟨_, hl⟩ => ⟨_, h.andThen hl⟩
  goOn := fun ⟨_, h⟩ => ⟨_, h.andThen (.next _)⟩
  drop := fun ⟨_, h⟩ => ⟨_, h.andThen (.drop _)⟩

theorem logs_nestedIn (room : Nat) (strength : Precedence) :
    Keeps (fun first _ last => ∃ lines, Logs first lines last) ((nestedIn room).parse strength) :=
  Contract.nestedIn (C := fun _ first _ last => ∃ lines, Logs first lines last)
    (fun _ => contract_logs) (fun ⟨_, h⟩ => ⟨_, .andThen (.enter _) (h.andThen (.leave _))⟩)
    room strength

theorem logs_atEnd (source : String) : ∃ lines, Logs (ofSource source) lines (atEnd source) :=
  contract_logs.program (logs_nestedIn maxDepth) (ofSource source)

/-! ## Lines and reports -/

theorem scanLog_append (lexemes more : List Lexeme) :
    scanLog (lexemes ++ more) = scanLog lexemes ++ scanLog more := by
  simp [scanLog]

theorem scanLog_take_append_drop (count : Nat) (lexemes : List Lexeme) :
    scanLog (lexemes.take count) ++ scanLog (lexemes.drop count) = scanLog lexemes := by
  rw [← scanLog_append, List.take_append_drop]

/-- Lexemes that were taken before any of the reports are logged first. -/
theorem interleaveLog_take (count : Nat) {lexemes : List Lexeme} {reports : List Report}
    (h : ∀ report ∈ reports, report.unread ≤ (lexemes.drop count).length) :
    interleaveLog lexemes reports =
      scanLog (lexemes.take count) ++ interleaveLog (lexemes.drop count) reports := by
  cases reports with
  | nil => exact (scanLog_take_append_drop count lexemes).symm
  | cons report others =>
      have hfirst := h report List.mem_cons_self
      by_cases hc : count ≤ lexemes.length
      · have hread : lexemes.length - report.unread =
            count + ((lexemes.drop count).length - report.unread) := by
          rw [List.length_drop] at hfirst ⊢
          omega
        rw [interleaveLog, interleaveLog, hread, List.take_add, scanLog_append, List.append_assoc,
          List.drop_drop]
      · have hle : lexemes.length ≤ count := by omega
        have hnone : report.unread = 0 := by simpa [List.drop_of_length_le hle] using hfirst
        simp [interleaveLog, hnone, List.drop_of_length_le hle, List.take_of_length_le hle, scanLog]

theorem interleaveLog_report (lexemes : List Lexeme) (diagnostic : Diagnostic)
    (later : List Report) :
    interleaveLog lexemes (⟨diagnostic, lexemes.length⟩ :: later) =
      Report.logLine ⟨diagnostic, lexemes.length⟩ :: interleaveLog lexemes later := by
  simp [interleaveLog, scanLog]

/-- The lines on the way are those of the reports that were made on it, between those of the lexemes
that were taken. What is reported later does not change them. -/
theorem Logs.interleaved {first last : Parser} {lines : List LogLine} (h : Logs first lines last) :
    last.waiting.length ≤ first.waiting.length ∧
    ∃ added, last.reports.toList = first.reports.toList ++ added ∧
      (∀ report ∈ added, report.unread ≤ first.waiting.length) ∧
      ∀ later, (∀ report ∈ later, report.unread ≤ last.waiting.length) →
        interleaveLog first.waiting (added ++ later) = lines ++ interleaveLog last.waiting later := by
  induction h with
  | stay | enter | leave | drop =>
      exact ⟨Nat.le_refl _, [], (List.append_nil _).symm, by simp, fun _ _ => rfl⟩
  | next parser =>
      refine ⟨by simp, [], by simp, by simp, fun later hlater => ?_⟩
      rw [waiting_advance] at hlater ⊢
      exact interleaveLog_take 1 hlater
  | report parser diagnostic =>
      refine ⟨Nat.le_refl _, [⟨diagnostic, parser.waiting.length⟩], ?_, by simp, ?_⟩
      · simp [Parser.report, waiting]
      · exact fun later _ => interleaveLog_report _ diagnostic later
  | @andThen first middle last lines more _ _ ih ih' =>
      obtain ⟨hle, added, hreports, hadded, hlines⟩ := ih
      obtain ⟨hle', added', hreports', hadded', hlines'⟩ := ih'
      refine ⟨Nat.le_trans hle' hle, added ++ added', ?_, ?_, fun later hlater => ?_⟩
      · rw [hreports', hreports, List.append_assoc]
      · intro report hm
        rcases List.mem_append.mp hm with hm | hm
        · exact hadded report hm
        · exact Nat.le_trans (hadded' report hm) hle
      · have hmiddle : ∀ report ∈ added' ++ later, report.unread ≤ middle.waiting.length := by
          intro report hm
          rcases List.mem_append.mp hm with hm | hm
          · exact hadded' report hm
          · exact Nat.le_trans (hlater report hm) hle'
        rw [List.append_assoc, hlines _ hmiddle, hlines' _ hlater, List.append_assoc]

/-! ## The end of a source -/

/-- However broken a source is, the parser comes to the end of it. -/
theorem upcoming_atEnd (source : String) : (atEnd source).upcoming = [] := by
  obtain ⟨values, hrows, -⟩ := program_atEnd source
  have hstop : (atEnd source).beforeEnd = false := many_stopped hrows
  have hwithin : Within maxDepth (ofSource source) (atEnd source) :=
    (contract_within maxDepth).program (within_nestedIn maxDepth) (ofSource source)
  exact List.map_eq_nil_iff.mp (tokens_eq_nil_of_suffix source (hwithin.upcoming.map _) hstop)

/-- The log of a source is that of its parser: two lexemes are in view at the start, each of the
others is taken on the way, and no lexeme is left at the end. -/
theorem interleaveLog_eq (source : String) {lines : List LogLine}
    (h : Logs (ofSource source) lines (atEnd source)) :
    interleaveLog (lexemesOf source) (parse source).reports =
      scanLog ((lexemesOf source).take window) ++ lines := by
  obtain ⟨-, added, hreports, hadded, hlines⟩ := h.interleaved
  have hall : added = (parse source).reports := hreports.symm.trans (reports_parse source).symm
  have hnone : (atEnd source).waiting = [] := by simp [waiting, upcoming_atEnd]
  have hlast := hlines [] (by simp)
  rw [hnone, List.append_nil, hall] at hlast
  rw [hall] at hadded
  calc interleaveLog (lexemesOf source) (parse source).reports
      = scanLog ((lexemesOf source).take window) ++
          interleaveLog ((lexemesOf source).drop window) (parse source).reports :=
        interleaveLog_take window hadded
    _ = scanLog ((lexemesOf source).take window) ++ (lines ++ interleaveLog [] []) :=
        congrArg (scanLog ((lexemesOf source).take window) ++ ·) hlast
    _ = scanLog ((lexemesOf source).take window) ++ lines := by
        rw [show interleaveLog [] [] = [] from rfl, List.append_nil]

end MonkeyFront.Parser
