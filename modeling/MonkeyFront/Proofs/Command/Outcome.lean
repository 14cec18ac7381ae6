import MonkeyFront.Command.Request

/-!
# The outcome of a request

A request first comes by its source text, or fails. Once the text is there, it does not matter where
it has come from.
-/

namespace MonkeyFront.Request

/-- The source text that a request is about, or why there is none. -/
def sourceText (request : Request) (system : FileSystem) : Except Failure String :=
  if request.inline then .ok request.source
  else if !request.source.endsWith ".monkey" then .error .notASource
  else
    match system.read request.source with
    | .error fault => .error (.file fault)
    | .ok bytes =>
      match decodeText? bytes with
      | none => .error .undecodable
      | some text => .ok text

/-- A request finishes with its source text, or fails without any trace. -/
theorem runIn_job (request : Request) (system : FileSystem) :
    request.job.runIn system =
      match request.sourceText system with
      | .error failure => (failed failure [], system)
      | .ok source => (request.finish source).runIn system := by
  unfold job sourceText
  split
  · rfl
  split
  · rfl
  rw [Job.runIn]
  cases system.read request.source with
  | error fault => rfl
  | ok bytes => cases h : decodeText? bytes <;> simp [h, Job.runIn]

/-- A source is put into a form unless it is malformed, and tokens can be written of any source. -/
theorem judge_cases (form : Form) (source : String) :
    (∃ text, judge form source = .accepted text ∧
      (form = .tokens ∨ (parse source).errors = [])) ∨
    (judge form source = .malformed (parse source).errors ∧
      form ≠ .tokens ∧ (parse source).errors ≠ []) := by
  have herrors : (parse source).errors = [] ↔ (parse source).reports.isEmpty = true := by
    rw [List.isEmpty_iff]
    exact List.map_eq_nil_iff
  unfold judge
  split
  · exact .inl ⟨_, rfl, .inl rfl⟩
  next hform =>
    by_cases hreports : (parse source).reports.isEmpty = true
    · simp only [hreports, if_true]
      exact .inl ⟨_, rfl, .inr (herrors.mpr hreports)⟩
    · simp only [hreports, Bool.false_eq_true, if_false]
      exact .inr ⟨trivial, hform, fun h => hreports (herrors.mp h)⟩

variable {request : Request} {source : String}

/-- A malformed source leaves its errors behind, whatever was to be written and where to. -/
theorem finish_malformed (hform : request.form ≠ .tokens) (hstrict : request.strict = false)
    (herrors : (parse source).errors ≠ []) :
    request.finish source =
      .done ⟨.ok 1, "", logOf request.form source,
        (parse source).errors.map ("parser error: " ++ ·)⟩ := by
  rcases judge_cases request.form source with ⟨text, -, haccepted⟩ | ⟨hjudge, -, -⟩
  · exact absurd haccepted (not_or.mpr ⟨hform, herrors⟩)
  · simp [finish, hjudge, hstrict]

end MonkeyFront.Request
