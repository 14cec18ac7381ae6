import MonkeyFront.Proofs.Command.DebugLog
import MonkeyFront.Proofs.Command.Outcome
import MonkeyFront.Proofs.Parser.Messages

/-!
# Output in lines

Tokens are written one to a line, and so are errors, and whatever the source is, the lines can be
taken apart again. All that is put into a line is printable, so no line is broken by what is in it.
-/

namespace MonkeyFront

/-! ## Rows of tokens -/

theorem Token.Printable.row {token : Token} (h : token.Printable) :
    '\n' ∉ token.row.toList ∧
      Text.splitAtTab token.row.toList = (token.kind.name, token.literal) := by
  have hrow : token.row.toList = token.kind.name.toList ++ '\t' :: token.literal.toList := by
    simp [Token.row]
  refine ⟨?_, ?_⟩
  · simp [hrow, h.kind.not_mem.1, h.literal.not_mem.1]
  · rw [hrow, Text.splitAtTab_append h.kind.not_mem.2, String.ofList_toList, String.ofList_toList]

/-- The tokens of a source are read back from their rows. -/
theorem splitAtTab_rows (source : String) :
    (Text.splitLines (String.intercalate "\n" ((tokenize source).map Token.row)).toList).map
      Text.splitAtTab = (tokenize source).map fun token => (token.kind.name, token.literal) := by
  have hne : (tokenize source).map (·.row.toList) ≠ [] := by simp [tokenize]
  have hlines : ∀ line ∈ (tokenize source).map (·.row.toList), '\n' ∉ line := by
    intro line hm
    obtain ⟨token, ht, rfl⟩ := List.mem_map.mp hm
    exact (printable_of_mem_tokenize ht).row.1
  have hjoined : (String.intercalate "\n" ((tokenize source).map Token.row)).toList =
      ['\n'].intercalate ((tokenize source).map (·.row.toList)) := by
    rw [String.toList_intercalate, List.map_map]
    rfl
  rw [hjoined, Text.splitLines_intercalate hne hlines, List.map_map]
  exact List.map_congr_left fun token ht => (printable_of_mem_tokenize ht).row.2

/-! ## Lines of the log -/

theorem printable_toString (n : Nat) : Text.Printable (toString n) := by
  rw [Nat.toString_eq_repr, Nat.repr_eq_ofList_toDigits]
  exact printable_word fun c hc =>
    .inr (Nat.isDigit_of_mem_toDigits (Nat.succ_pos 9) (Nat.le_refl 10) hc)

theorem printable_of_mem_scanLog {source : String} {line : LogLine}
    (h : line ∈ scanLog (lexemesOf source)) : Text.Printable line.message := by
  obtain ⟨lexeme, hm, rfl⟩ := List.mem_map.mp h
  have htoken : lexeme.token ∈ tokenize source := by
    rw [tokenize]
    exact List.mem_append_left _ (List.mem_map_of_mem (List.mem_filter.mp hm).1)
  have hliteral := (printable_of_mem_tokenize htoken).literal
  simp only [Lexeme.logLine, Text.printable_append, printable_toString, hliteral, and_true]
  exact ⟨Text.printable_of_ascii, Text.printable_of_ascii⟩

theorem printable_of_mem_parseLog {source : String} {line : LogLine}
    (h : line ∈ parseLog (lexemesOf source)) : Text.Printable line.message := by
  rw [parseLog, List.mem_append, List.mem_singleton] at h
  rcases h with h | rfl
  · rcases (merge_interleaveLog _ _).mem_or h with hscan | hreport
    · exact printable_of_mem_scanLog hscan
    · obtain ⟨report, hm, rfl⟩ := List.mem_map.mp hreport
      have herror : report.diagnostic.message ∈ (parse source).errors := List.mem_map_of_mem hm
      refine Text.printable_append.mpr ⟨Text.printable_of_ascii, ?_⟩
      exact Parser.printable_of_mem_errors herror
  · simp only [Parsed.logLine, Text.printable_append, printable_toString, and_true]
    refine ⟨⟨?_, ?_⟩, ?_⟩ <;> exact Text.printable_of_ascii

theorem printable_of_mem_logOf {form : Form} {source : String} {line : LogLine}
    (h : line ∈ Request.logOf form source) : Text.Printable line.message := by
  cases form with
  | tokens => exact printable_of_mem_scanLog h
  | rendering | json => exact printable_of_mem_parseLog h

theorem LogLine.printable_text {line : LogLine} (h : Text.Printable line.message) :
    Text.Printable line.text := by
  have hseverity : Text.Printable line.severity.name := by
    cases line.severity <;> exact Text.printable_of_ascii
  have hsource : Text.Printable line.source.name := by
    cases line.source <;> exact Text.printable_of_ascii
  simp only [LogLine.text, Text.printable_append, hseverity, hsource, h, and_true, true_and]
  exact ⟨Text.printable_of_ascii, Text.printable_of_ascii⟩

theorem rank_le_info (severity : Severity) : severity.rank ≤ Severity.info.rank := by
  cases severity <;> decide

/-- A line of the log starts with how severe it is, in capitals. -/
theorem LogLine.not_error (line : LogLine) : Text.after? "parser error: " line.text = none := by
  refine Text.after?_eq_none fun h => ?_
  cases hs : line.severity <;>
    simp [LogLine.text, hs, Severity.name, String.toList_append] at h

/-! ## Responses -/

/-- The error lines come after the lines of the log that are shown. -/
theorem inputLines_errorOutput {response : Response}
    (hlog : ∀ line ∈ response.log, Text.Printable line.message)
    (hcomplaints : ∀ complaint ∈ response.complaints, Text.Printable complaint)
    (threshold : Threshold) :
    Text.inputLines (response.errorOutput threshold) =
      (response.log.filter fun line => threshold ≤ line.severity.rank).map (·.text) ++
        response.complaints := by
  rw [Response.errorOutput, showLog, ← Text.rows_append]
  refine Text.inputLines_rows fun text hm => ?_
  rcases List.mem_append.mp hm with hm | hm
  · obtain ⟨line, hline, rfl⟩ := List.mem_map.mp hm
    exact (LogLine.printable_text (hlog line (List.mem_filter.mp hline).1)).not_mem.1
  · exact (hcomplaints text hm).not_mem.1

/-- The errors are read back from the error lines, whatever is shown of the log. -/
theorem errors_of_errorOutput {response : Response} {errors : List String}
    (hlog : ∀ line ∈ response.log, Text.Printable line.message)
    (herrors : ∀ error ∈ errors, Text.Printable error)
    (h : response.complaints = errors.map ("parser error: " ++ ·)) (threshold : Threshold) :
    (Text.inputLines (response.errorOutput threshold)).filterMap (Text.after? "parser error: ") =
      errors ∧
    (Severity.info.rank < threshold →
      Text.inputLines (response.errorOutput threshold) = errors.map ("parser error: " ++ ·)) := by
  have hcomplaints : ∀ complaint ∈ response.complaints, Text.Printable complaint := by
    intro complaint hm
    rw [h] at hm
    obtain ⟨error, he, rfl⟩ := List.mem_map.mp hm
    exact Text.printable_append.mpr ⟨Text.printable_of_ascii, herrors error he⟩
  rw [inputLines_errorOutput hlog hcomplaints, h]
  refine ⟨?_, fun hthreshold => ?_⟩
  · have hshown : ((response.log.filter fun line => threshold ≤ line.severity.rank).map
        (·.text)).filterMap (Text.after? "parser error: ") = [] := by
      simp [LogLine.not_error]
    rw [List.filterMap_append, hshown, List.nil_append, List.filterMap_map]
    simp [Text.after?_append]
  · have hshown : (response.log.filter fun line => threshold ≤ line.severity.rank) = [] := by
      rw [List.filter_eq_nil_iff]
      intro line _
      have hrank := Nat.lt_of_le_of_lt (rank_le_info line.severity) hthreshold
      rw [decide_eq_true_eq]
      exact Nat.not_le_of_lt hrank
    rw [hshown, List.map_nil, List.nil_append]

/-- Whatever the source is, no literal of a token and no error in it holds a line feed, a carriage
return, a tab or anything else that is not printable. So the tokens are read back from the output: a
line for each, the kind before the first tab and the literal behind it. If a source is malformed,
its errors are read back from the error output: they are what follows the mark in the lines that
start with it, and there are no other lines unless the log is shown. -/
theorem lines_decodable (source : String) :
    (∀ text ∈ (tokenize source).map (·.literal) ++ (parse source).errors, ∀ c ∈ text.toList,
      Text.isPrintable c = true ∧ c ≠ '\n' ∧ c ≠ '\r' ∧ c ≠ '\t') ∧
    (∀ (json strict : Bool) (system : FileSystem),
      let response := ((Request.ofText source true json strict).job.runIn system).1
      response.ending = .ok 0 ∧ ∃ text, response.output = text ++ "\n" ∧
        (Text.splitLines text.toList).map Text.splitAtTab =
          (tokenize source).map fun token => (token.kind.name, token.literal)) ∧
    (∀ (request : Request) (system : FileSystem), request.sourceText system = .ok source →
      request.form ≠ .tokens → request.strict = false → (parse source).errors ≠ [] →
      let response := (request.job.runIn system).1
      response.ending = .ok 1 ∧ ∀ threshold : Threshold,
        (Text.inputLines (response.errorOutput threshold)).filterMap
          (Text.after? "parser error: ") = (parse source).errors ∧
        (Severity.info.rank < threshold →
          Text.inputLines (response.errorOutput threshold) =
            (parse source).errors.map ("parser error: " ++ ·))) := by
  refine ⟨fun text hm c hc => ?_, fun json strict system => ⟨rfl, _, rfl, splitAtTab_rows source⟩,
    fun request system htext hform hstrict herrors => ?_⟩
  · have hprintable : Text.isPrintable c = true := by
      rcases List.mem_append.mp hm with hm | hm
      · obtain ⟨token, ht, rfl⟩ := List.mem_map.mp hm
        exact (printable_of_mem_tokenize ht).literal c hc
      · exact Parser.printable_of_mem_errors hm c hc
    exact ⟨hprintable, Text.ne_of_isPrintable hprintable⟩
  · rw [Request.runIn_job, htext]
    simp only [Request.finish_malformed hform hstrict herrors, Job.runIn]
    refine ⟨trivial, fun threshold => errors_of_errorOutput ?_ ?_ rfl threshold⟩
    · exact fun line => printable_of_mem_logOf
    · exact fun error => Parser.printable_of_mem_errors

/-- A control character and a quotation mark that are refused do not break the lines in which they
are named. -/
theorem lines_decodable_escaped :
    let request : Request :=
      { source := "let a = \x07;\n'", inline := true, form := .json, destination := some "a.json",
        strict := false }
    let response := (request.job.runIn ⟨[], [], []⟩).1
    request.sourceText ⟨[], [], []⟩ = .ok "let a = \x07;\n'" ∧ request.form ≠ .tokens ∧
    (parse "let a = \x07;\n'").errors ≠ [] ∧ response.ending = .ok 1 ∧
    Text.inputLines (response.errorOutput .warning) =
      ["parser error: illegal token: illegal character: '\\x07'",
        "parser error: illegal token: illegal character: \x22'\x22"] := by
  intro request response
  have herrors : (parse "let a = \x07;\n'").errors =
      ["illegal token: illegal character: '\\x07'",
        "illegal token: illegal character: \x22'\x22"] := by
    decide +kernel
  have hne : (parse "let a = \x07;\n'").errors ≠ [] := by simp [herrors]
  have hlines := (lines_decodable _).2.2 request ⟨[], [], []⟩ rfl (by decide) rfl hne
  refine ⟨rfl, by decide, hne, hlines.1, ?_⟩
  rw [(hlines.2 .warning).2 (by decide), herrors]
  rfl

end MonkeyFront
