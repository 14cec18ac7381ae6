import MonkeyFront.Proofs.Command.Outcome
import MonkeyFront.Proofs.Command.Writing

/-!
# All or nothing

A request that does not succeed shows nothing and leaves the files alone, whatever has stopped it:
its source, the files, or a machine that refuses to open one. A request that succeeds with a
destination writes what it would have shown without one, and nothing else.
-/

namespace MonkeyFront

/-! ## Machines -/

/-- The names of files that a machine does not open for reasons of its own, for want of permission
say. -/
structure Refusals where
  reading : String → Bool
  writing : String → Bool

def Refusals.nothing : Refusals := ⟨fun _ => false, fun _ => false⟩

/-- The result of a job on a machine, and the files after it. There is no result if the machine
refuses to open a file, which ends the job. -/
def Job.runUnder {α : Type} (refusals : Refusals) (system : FileSystem) :
    Job α → Option α × FileSystem
  | .done result => (some result, system)
  | .read name next =>
    if refusals.reading name then (none, system)
    else (next (system.read name)).runUnder refusals system
  | .write name text next =>
    if refusals.writing name then (none, system)
    else
      match system.write name text with
      | .ok after => (next (.ok ())).runUnder refusals after
      | .error fault => (next (.error fault)).runUnder refusals system

theorem Job.runUnder_nothing {α : Type} (system : FileSystem) (job : Job α) :
    job.runUnder .nothing system = (some (job.runIn system).1, (job.runIn system).2) := by
  induction job generalizing system with
  | done result => rfl
  | read name next ih => exact ih (system.read name) system
  | write name text next ih =>
      simp only [runUnder, runIn, Refusals.nothing, Bool.false_eq_true, if_false]
      cases system.write name text with
      | ok after => exact ih (.ok ()) after
      | error fault => exact ih (.error fault) system

/-- What is to be seen of a request: how it ends, unless the machine refuses to open a file; what is
on the standard output; and the files. -/
structure Effect where
  ending : Option (Except Failure Nat)
  output : String
  files : FileSystem

def Job.effect (refusals : Refusals) (system : FileSystem) (job : Job Response) : Effect :=
  let run := job.runUnder refusals system
  ⟨run.1.map (·.ending), run.1.elim "" (·.output), run.2⟩

/-- A machine that refuses nothing is the files it has. -/
theorem Job.effect_nothing (system : FileSystem) (job : Job Response) :
    job.effect .nothing system =
      ⟨some (job.runIn system).1.ending, (job.runIn system).1.output, (job.runIn system).2⟩ := by
  simp [effect, runUnder_nothing]

namespace Request

/-- The request that some flags make of a source. -/
def ofFlags (source : String) (inline tokens json strict : Bool) (destination : Option String) :
    Request :=
  { source, inline, form := .ofWishes tokens json, destination, strict }

/-- The source text that a request comes by on a machine, or why it fails, unless the machine
refuses to open its file. -/
def obtained (refusals : Refusals) (system : FileSystem) (request : Request) :
    Option (Except Failure String) :=
  if !request.inline && request.source.endsWith ".monkey" && refusals.reading request.source then
    none
  else some (request.sourceText system)

/-- The file that a request writes to, if there is one. -/
def target (request : Request) : Option String := request.destination.filter (· != "")

variable {refusals : Refusals} {system : FileSystem} {request : Request} {source text name : String}

theorem form_ofFlags_ne_tokens {inline tokens json strict : Bool} {destination : Option String} :
    (ofFlags source inline tokens json strict destination).form ≠ .tokens ↔ tokens = false := by
  cases tokens <;> cases json <;> simp [ofFlags, Form.ofWishes]

theorem target_eq_some :
    request.target = some name ↔ request.destination = some name ∧ name ≠ "" := by
  simp [target, Option.filter_eq_some_iff]

theorem target_eq_none :
    request.target = none ↔ request.destination = none ∨ request.destination = some "" := by
  unfold target
  cases request.destination <;> simp

theorem effect_job (refusals : Refusals) (system : FileSystem) (request : Request) :
    request.job.effect refusals system =
      match request.obtained refusals system with
      | none => ⟨none, "", system⟩
      | some (.error failure) => ⟨some (.error failure), "", system⟩
      | some (.ok source) => (request.finish source).effect refusals system := by
  unfold job obtained sourceText
  by_cases hinline : request.inline = true
  · simp [hinline]
  by_cases hname : request.source.endsWith ".monkey" = true
  · by_cases hrefused : refusals.reading request.source = true
    · simp [hinline, hname, hrefused, Job.effect, Job.runUnder]
    · simp only [hinline, hname, hrefused, Job.effect, Job.runUnder, Bool.not_true,
        Bool.false_eq_true, if_false, Bool.and_false]
      cases system.read request.source with
      | error fault => rfl
      | ok bytes => cases hdecoded : decodeText? bytes <;> simp [hdecoded, Job.runUnder, failed]
  · simp [hinline, hname, Job.effect, Job.runUnder, failed]

/-! ## Once the source text is there -/

theorem effect_obtained (h : request.obtained refusals system = some (.ok source)) :
    request.job.effect refusals system = (request.finish source).effect refusals system := by
  rw [effect_job, h]

/-- A malformed source stops a request before any file is opened for writing. -/
theorem effect_malformed {errors : List String}
    (h : judge request.form source = .malformed errors) :
    (request.finish source).effect refusals system =
      ⟨some (if request.strict then .error (.rejected ⟨errors⟩) else .ok 1), "", system⟩ := by
  unfold finish
  simp only [h]
  split <;> rfl

/-- Without a file to write to, the text is shown. -/
theorem effect_shown (h : judge request.form source = .accepted text)
    (htarget : request.target = none) :
    (request.finish source).effect refusals system = ⟨some (.ok 0), text ++ "\n", system⟩ := by
  unfold target at htarget
  unfold finish
  simp only [h, htarget]
  rfl

/-- With a file to write to, there are two ways for that to fail and one to succeed. -/
theorem effect_written (h : judge request.form source = .accepted text)
    (htarget : request.target = some name) :
    (request.finish source).effect refusals system =
      if refusals.writing name then ⟨none, "", system⟩
      else
        match system.write name (text ++ "\n") with
        | .error fault => ⟨some (.error (.file fault)), "", system⟩
        | .ok after => ⟨some (.ok 0), "", after⟩ := by
  unfold target at htarget
  unfold finish
  simp only [h, htarget, Job.effect, Job.runUnder]
  split
  · rfl
  · cases system.write name (text ++ "\n") <;> rfl

/-- A request ends without a trace, or shows its text, or writes it. -/
theorem effect_cases (refusals : Refusals) (system : FileSystem) (request : Request) :
    (∃ ending, ending ≠ some (.ok 0) ∧ request.job.effect refusals system = ⟨ending, "", system⟩) ∨
    ∃ source text, request.obtained refusals system = some (.ok source) ∧
      judge request.form source = .accepted text ∧
      ((request.target = none ∧
        request.job.effect refusals system = ⟨some (.ok 0), text ++ "\n", system⟩) ∨
      ∃ name after, request.target = some name ∧ system.write name (text ++ "\n") = .ok after ∧
        request.job.effect refusals system = ⟨some (.ok 0), "", after⟩) := by
  rw [effect_job]
  cases hobtained : request.obtained refusals system with
  | none => exact .inl ⟨none, nofun, rfl⟩
  | some result =>
  cases result with
  | error failure => exact .inl ⟨some (.error failure), nofun, rfl⟩
  | ok source =>
  rcases judge_cases request.form source with ⟨text, hjudge, -⟩ | ⟨hjudge, -, -⟩
  · cases htarget : request.target with
    | none => exact .inr ⟨source, text, rfl, hjudge, .inl ⟨rfl, effect_shown hjudge htarget⟩⟩
    | some name =>
        simp only [effect_written hjudge htarget]
        split
        · exact .inl ⟨none, nofun, rfl⟩
        cases hwrite : system.write name (text ++ "\n") with
        | error fault => exact .inl ⟨some (.error (.file fault)), nofun, rfl⟩
        | ok after => exact .inr ⟨source, text, rfl, hjudge, .inr ⟨name, after, rfl, hwrite, rfl⟩⟩
  · simp only [effect_malformed hjudge]
    cases request.strict with
    | true => exact .inl ⟨some (.error (.rejected _)), nofun, rfl⟩
    | false => exact .inl ⟨some (.ok 1), nofun, rfl⟩

/-- The same request without a file to write to shows the text. -/
theorem effect_without_destination
    (hobtained : request.obtained refusals system = some (.ok source))
    (hjudge : judge request.form source = .accepted text) :
    { request with destination := none }.job.effect refusals system =
      ⟨some (.ok 0), text ++ "\n", system⟩ := by
  let undirected := { request with destination := none }
  have hsame : undirected.obtained refusals system = some (.ok source) := hobtained
  have hform : judge undirected.form source = .accepted text := hjudge
  rw [effect_obtained hsame]
  exact effect_shown hform rfl

/-- Once the source text is there, a request ends for its errors if it has any and they matter, and
for nothing else. -/
theorem ending_iff_malformed (hobtained : request.obtained refusals system = some (.ok source)) :
    ((request.job.effect refusals system).ending = some (.ok 1) ↔
      request.strict = false ∧ request.form ≠ .tokens ∧ (parse source).errors ≠ []) ∧
    ∀ rejection,
      (request.job.effect refusals system).ending = some (.error (.rejected rejection)) ↔
        request.strict = true ∧ request.form ≠ .tokens ∧ (parse source).errors ≠ [] ∧
          rejection = ⟨(parse source).errors⟩ := by
  rw [effect_obtained hobtained]
  rcases judge_cases request.form source with ⟨text, hjudge, haccepted⟩ | ⟨hjudge, hform, herrors⟩
  · have hnot : ¬ (request.form ≠ .tokens ∧ (parse source).errors ≠ []) := by
      intro ⟨hform, herrors⟩
      exact haccepted.elim hform herrors
    have hending : ((request.finish source).effect refusals system).ending ≠ some (.ok 1) ∧
        ∀ rejection, ((request.finish source).effect refusals system).ending ≠
          some (.error (.rejected rejection)) := by
      cases htarget : request.target with
      | none => simp [effect_shown hjudge htarget]
      | some name =>
          rw [effect_written hjudge htarget]
          split
          · simp
          · cases system.write name (text ++ "\n") <;> simp
    refine ⟨iff_of_false hending.1 fun h => hnot h.2, fun rejection => ?_⟩
    exact iff_of_false (hending.2 rejection) fun h => hnot ⟨h.2.1, h.2.2.1⟩
  · simp only [effect_malformed hjudge]
    cases request.strict <;> simp [hform, herrors, eq_comm]

theorem effect_of_failure (h : (request.job.effect refusals system).ending ≠ some (.ok 0)) :
    (request.job.effect refusals system).output = "" ∧
      (request.job.effect refusals system).files = system := by
  rcases effect_cases refusals system request with
    ⟨ending, -, heffect⟩ | ⟨_, _, -, -, ⟨-, heffect⟩ | ⟨_, _, -, -, heffect⟩⟩
  · rw [heffect]
    exact ⟨rfl, rfl⟩
  · exact absurd (congrArg Effect.ending heffect) h
  · exact absurd (congrArg Effect.ending heffect) h

/-- A request that succeeds does what it would do without a file to write to, or writes what it
would show then. -/
theorem effect_of_success
    (h : (request.job.effect refusals system).ending = some (.ok 0)) :
    let effect := request.job.effect refusals system
    let shown := { request with destination := none }.job.effect refusals system
    shown.ending = some (.ok 0) ∧ shown.files = system ∧
      (request.target = none → effect = shown) ∧
      ∀ name, request.target = some name →
        effect.output = "" ∧ ∃ place, system.placeFor name = .ok place ∧
          system.OnlyChanged effect.files place shown.output.toUTF8 ∧
          effect.files.read name = .ok shown.output.toUTF8 := by
  rcases effect_cases refusals system request with
    ⟨ending, hending, heffect⟩ | ⟨source, text, hobtained, hjudge, hrest⟩
  · rw [heffect] at h
    exact absurd h hending
  have hshown := effect_without_destination hobtained hjudge
  rcases hrest with ⟨htarget, heffect⟩ | ⟨name, after, htarget, hwrite, heffect⟩
  · simp only [heffect, hshown, htarget]
    exact ⟨trivial, trivial, fun _ => trivial, nofun⟩
  · simp only [heffect, hshown, htarget]
    refine ⟨trivial, trivial, nofun, fun other hother => ?_⟩
    cases hother
    exact ⟨trivial, FileSystem.onlyChanged_write hwrite⟩

end Request

/-- Whatever the flags, the files and the machine, a request that does not end with status 0 shows
nothing and leaves all files alone. One that does and has a file to write to shows nothing either,
and changes that file only, which then holds what the same request without a destination shows; and
one without a file to write to just shows that. A request that does not come by its source text
fails for that reason. Once it has come by it, its errors are what it ends for, unless tokens are
wanted: with status 1, or with a failure that lists them if the request is strict. -/
theorem all_or_nothing (source : String) (inline tokens json strict : Bool)
    (destination : Option String) (refusals : Refusals) (system : FileSystem) :
    let request := Request.ofFlags source inline tokens json strict destination
    let effect := request.job.effect refusals system
    let shown := (Request.ofFlags source inline tokens json strict none).job.effect refusals system
    (effect.ending ≠ some (.ok 0) → effect.output = "" ∧ effect.files = system) ∧
    (effect.ending = some (.ok 0) →
      shown.ending = some (.ok 0) ∧ shown.files = system ∧
      (∀ name, destination = some name → name ≠ "" →
        effect.output = "" ∧ ∃ place, system.placeFor name = .ok place ∧
          system.OnlyChanged effect.files place shown.output.toUTF8 ∧
          effect.files.read name = .ok shown.output.toUTF8) ∧
      (destination = none ∨ destination = some "" → effect = shown)) ∧
    (request.obtained refusals system = none → effect.ending = none) ∧
    (∀ failure, request.obtained refusals system = some (.error failure) →
      effect.ending = some (.error failure)) ∧
    (∀ text, request.obtained refusals system = some (.ok text) →
      (effect.ending = some (.ok 1) ↔
        strict = false ∧ tokens = false ∧ (parse text).errors ≠ []) ∧
      ∀ rejection, effect.ending = some (.error (.rejected rejection)) ↔
        strict = true ∧ tokens = false ∧ (parse text).errors ≠ [] ∧
          rejection = ⟨(parse text).errors⟩) := by
  intro request effect shown
  have hjob := Request.effect_job refusals system request
  refine ⟨Request.effect_of_failure, fun hending => ?_, fun hnone => ?_, fun failure herror => ?_,
    fun text htext => ?_⟩
  · obtain ⟨hshown, hfiles, hsame, hwritten⟩ := Request.effect_of_success hending
    refine ⟨hshown, hfiles, fun name hname hne => ?_, fun hdestination => ?_⟩
    · exact hwritten name (Request.target_eq_some.mpr ⟨hname, hne⟩)
    · exact hsame (Request.target_eq_none.mpr hdestination)
  · rw [hnone] at hjob
    exact congrArg Effect.ending hjob
  · rw [herror] at hjob
    exact congrArg Effect.ending hjob
  · have hends := Request.ending_iff_malformed htext
    rwa [Request.form_ofFlags_ne_tokens] at hends

/-- A rendering takes the place of the bytes of a file, and the other file stays as it is. On a
machine that lets nothing be written, both do. -/
theorem all_or_nothing_overwrites :
    let system : FileSystem := ⟨[(["a"], "1".toUTF8), (["b"], "2".toUTF8)], [], []⟩
    let job := (Request.ofFlags "x * y" true false false false (some "a")).job
    let effect := job.effect .nothing system
    let refused := job.effect ⟨fun _ => false, fun _ => true⟩ system
    effect.ending = some (.ok 0) ∧ effect.output = "" ∧
      effect.files.read "a" = .ok "(x * y)\n".toUTF8 ∧ effect.files.file? ["b"] = some "2".toUTF8 ∧
      refused.ending = none ∧ refused.output = "" ∧ refused.files = system := by
  intro system job effect refused
  have hjudge : Request.judge .rendering "x * y" = .accepted "(x * y)" := by decide +kernel
  have hsteps : "a".splitOn "/" = ["a"] := by
    rw [String.splitOn, String.splitOnAux, String.splitOnAux]
    decide +kernel
  have hslash : "a".startsWith "/" = false ∧ "a".endsWith "/" = false := by decide +kernel
  have hlocate : system.locate "a" = .ok ([], "a") := by
    rw [FileSystem.locate, hsteps, hslash.1]
    rfl
  have hplace : system.placeFor "a" = .ok ["a"] := by
    simp only [FileSystem.placeFor, hlocate, hslash.2]
    rfl
  have hwrite : system.write "a" "(x * y)\n" = .ok (system.put ["a"] "(x * y)\n".toUTF8) := by
    apply FileSystem.atName_eq_ok.mpr
    rw [hplace]
    exact ⟨by simp, rfl⟩
  have heffect : effect.ending = some (.ok 0) := by
    simp only [effect, job]
    rw [Request.effect_obtained rfl, Request.effect_written hjudge rfl]
    simp only [Refusals.nothing, Bool.false_eq_true, if_false, String.reduceAppend, hwrite]
  have hshown : (Request.ofFlags "x * y" true false false false none).job.effect .nothing system =
      ⟨some (.ok 0), "(x * y)\n", system⟩ := by
    rw [Request.effect_obtained rfl, Request.effect_shown hjudge rfl]
    rfl
  have hrefused : refused.ending = none := by
    simp only [refused, job]
    rw [Request.effect_obtained rfl, Request.effect_written hjudge rfl]
    rfl
  obtain ⟨hquiet, place, hat, honly, hread⟩ :=
    ((all_or_nothing "x * y" true false false false (some "a") .nothing system).2.1 heffect).2.2.1
      "a" rfl (by decide)
  have hnothing := (all_or_nothing "x * y" true false false false (some "a")
    ⟨fun _ => false, fun _ => true⟩ system).1 fun h => Option.some_ne_none _ (h.symm.trans hrefused)
  rw [hshown] at hread
  have hother : ["b"] ≠ place := by
    rw [hplace] at hat
    cases hat
    decide
  exact ⟨heffect, hquiet, hread, honly.others _ hother, hrefused, hnothing⟩

end MonkeyFront
