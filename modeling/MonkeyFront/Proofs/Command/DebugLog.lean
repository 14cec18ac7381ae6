import MonkeyFront.Command.Request
import MonkeyFront.Proofs.Parser.Logging
import MonkeyFront.Proofs.Scanner.Spans

/-!
# The log of a request

What is logged while a source text is put into a form: a line for each illegal token, in their
order, each with the place where its text starts, among them a line for each error, and a summary at
the end.
-/

namespace MonkeyFront

/-- A row made of two others, with the items of each in their order. -/
inductive Merge {α : Type} : List α → List α → List α → Prop
  | nil : Merge [] [] []
  | left {item : α} {first second all : List α} (h : Merge first second all) :
      Merge (item :: first) second (item :: all)
  | right {item : α} {first second all : List α} (h : Merge first second all) :
      Merge first (item :: second) (item :: all)

namespace Merge

variable {α : Type} {first second all : List α}

theorem left_all (first : List α) : Merge first [] first := by
  induction first with
  | nil => exact .nil
  | cons item first ih => exact .left ih

theorem append_left (more : List α) (h : Merge first second all) :
    Merge (more ++ first) second (more ++ all) := by
  induction more with
  | nil => exact h
  | cons item more ih => exact .left ih

theorem mem_or (h : Merge first second all) {item : α} (hm : item ∈ all) :
    item ∈ first ∨ item ∈ second := by
  induction h with
  | nil => cases hm
  | left h ih =>
      rcases List.mem_cons.mp hm with rfl | hm
      · exact .inl List.mem_cons_self
      · exact (ih hm).imp_left (List.mem_cons_of_mem _)
  | right h ih =>
      rcases List.mem_cons.mp hm with rfl | hm
      · exact .inr List.mem_cons_self
      · exact (ih hm).imp_right (List.mem_cons_of_mem _)

end Merge

theorem merge_interleaveLog (lexemes : List Lexeme) (reports : List Report) :
    Merge (scanLog lexemes) (reports.map (·.logLine)) (interleaveLog lexemes reports) := by
  induction reports generalizing lexemes with
  | nil => exact .left_all _
  | cons report others ih =>
      rw [← Parser.scanLog_take_append_drop (lexemes.length - report.unread) lexemes]
      exact .append_left _ (.right (ih _))

/-- All lines are severe enough for the lowest threshold. -/
theorem showLog_debug (lines : List LogLine) :
    showLog .debug lines = Text.rows (lines.map (·.text)) := by
  have hshown : ∀ line ∈ lines, decide (Threshold.debug ≤ line.severity.rank) = true := by
    intro line _
    cases line.severity <;> decide
  rw [showLog, List.filter_eq_self.mpr hshown]

/-- The illegal tokens of a source, with their places. -/
def illegalLexemes (source : String) : List Lexeme := (lexemesOf source).filter (·.isIllegal)

theorem map_token_illegalLexemes (source : String) :
    (illegalLexemes source).map (·.token) =
      (tokenize source).filter fun token => token.kind == .illegal := by
  have hend : [Token.eof].filter (fun token => token.kind == .illegal) = [] := rfl
  rw [tokenize, List.filter_append, hend, List.append_nil, List.filter_map]
  rfl

/-- The request to put a source text into a form on the standard output. -/
def Request.ofText (source : String) (tokens json strict : Bool) : Request :=
  { source, inline := true, form := .ofWishes tokens json, destination := none, strict }

/-- Whether the source text is malformed or not, the log is that of its form. -/
theorem log_ofText (source : String) (tokens json strict : Bool) (system : FileSystem) :
    ((Request.ofText source tokens json strict).job.runIn system).1.log =
      Request.logOf (.ofWishes tokens json) source := by
  simp only [Request.ofText, Request.job, if_true, Request.finish]
  cases Request.judge (.ofWishes tokens json) source with
  | accepted text => rfl
  | malformed errors => cases strict <;> rfl

/-- The log of a request for a source text, whatever the text is. Lines about illegal tokens and
lines about errors are merged, in the order in which the parser takes in lexemes and refuses what it
finds, and a summary ends the log. The lines about illegal tokens are one for each in their order,
with the place where the text of the token starts. They are all there is if tokens are asked for.
At the lowest threshold all lines are shown. -/
theorem log_of_text (source : String) (json strict : Bool) (system : FileSystem) :
    let response := ((Request.ofText source false json strict).job.runIn system).1
    let responseTokens := ((Request.ofText source true json strict).job.runIn system).1
    let scanned := (illegalLexemes source).map fun lexeme =>
      LogLine.mk .debug .scanner
        ("illegal input at " ++ toString lexeme.start ++ ": " ++ lexeme.token.literal)
    let refused := (parse source).errors.map fun error =>
      LogLine.mk .debug .parser ("parse error: " ++ error)
    let summary := LogLine.mk .debug .parser
      ("parsed " ++ toString (parse source).program.statements.length ++ " statement(s) with "
        ++ toString (parse source).errors.length ++ " error(s)")
    (∃ start rest, Merge scanned refused (start ++ rest) ∧
      response.log = start ++ rest ++ [summary] ∧
      start = scanLog ((lexemesOf source).take Parser.window) ∧
      Parser.Logs (Parser.ofSource source) rest (Parser.atEnd source) ∧
      (Parser.atEnd source).upcoming = []) ∧
    responseTokens.log = scanned ∧
    (illegalLexemes source).map (·.token) =
      (tokenize source).filter (fun token => token.kind == .illegal) ∧
    (illegalLexemes source).Pairwise (fun lexeme other => lexeme.start < other.start) ∧
    (∀ lexeme ∈ illegalLexemes source, lexeme.stop ≤ source.toList.length ∧
      lexeme.token.StandsFor (source.toList.extract lexeme.start lexeme.stop)) ∧
    showLog .debug response.log = Text.rows (response.log.map (·.text)) := by
  intro response responseTokens scanned refused summary
  have hcovers : Covers source.toList 0 (lexemesOf source) :=
    Scanner.covers_drain (Scanner.ready_ofSource source)
  obtain ⟨rest, hrest⟩ := Parser.logs_atEnd source
  have hbody := Parser.interleaveLog_eq source hrest
  have hlog : response.log = interleaveLog (lexemesOf source) (parse source).reports ++
      [(parse source).logLine] := by
    rw [log_ofText]
    cases json <;> rfl
  have hrefused : refused = (parse source).reports.map (·.logLine) := List.map_map
  have hsummary : summary = (parse source).logLine := by
    simp only [summary, Parsed.logLine, Parsed.errors, List.length_map]
  refine ⟨⟨_, rest, ?_, ?_, rfl, hrest, Parser.upcoming_atEnd source⟩, log_ofText _ _ _ _ _,
    map_token_illegalLexemes source, hcovers.starts.2.filter _, fun lexeme hm => ?_,
    showLog_debug _⟩
  · rw [← hbody, hrefused]
    exact merge_interleaveLog _ _
  · rw [← hbody, hsummary]
    exact hlog
  · exact hcovers.text_at lexeme (List.mem_filter.mp hm).1

/-- The first error is found while the bad number is still to come. -/
example : (Request.logOf .rendering "let @ = 12b; §").map (·.message) =
    ["illegal input at 4: illegal character: '@'",
      "parse error: expected next token to be IDENT, got ILLEGAL instead",
      "illegal input at 8: bad number syntax: '12b'",
      "illegal input at 13: illegal character: '§'",
      "parse error: illegal token: illegal character: '§'",
      "parsed 0 statement(s) with 2 error(s)"] := by
  decide +kernel

end MonkeyFront
