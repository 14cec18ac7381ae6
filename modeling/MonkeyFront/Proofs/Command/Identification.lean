import MonkeyFront.Command.Request
import MonkeyFront.Proofs.Json.Layout
import MonkeyFront.Proofs.Parser.WellFormed
import MonkeyFront.Proofs.Tree.Record

/-!
# The JSON form identifies programs

Sources have the same record, and are written as the same JSON text, exactly if their trees are the
same down to the kind and the literal of every token.
-/

namespace MonkeyFront

/-- All tokens in the tree of a source were scanned. -/
theorem spelled_parse (source : String) : Node.Spelled (.program (parse source).program) :=
  (Parser.built_program source).mono fun _ h => h.1

/-- The request to write the tree of a source text as JSON on the standard output. -/
def Request.jsonOf (source : String) (strict : Bool) : Request :=
  { source, inline := true, form := .ofWishes false true, destination := none, strict }

/-- A source without errors is written in full, and no file is touched. -/
theorem runIn_jsonOf {source : String} (h : (parse source).errors = []) (strict : Bool)
    (system : FileSystem) :
    (Request.jsonOf source strict).job.runIn system =
      (⟨.ok 0, (parse source).program.record.layout ++ "\n", Request.logOf .json source, []⟩,
        system) := by
  have hreports : (parse source).reports = [] := List.map_eq_nil_iff.mp h
  have hjudge : Request.judge .json source = .accepted (parse source).program.record.layout := by
    simp [Request.judge, hreports]
  simp [Request.jsonOf, Request.job, Request.finish, Form.ofWishes, hjudge, Job.runIn]

/-- Two sources have the same tree exactly if their records are the same, and also if the records
are the same up to the order of fields. If both sources are well formed, then both are written as
JSON, and the texts are the same exactly if the trees are. -/
theorem record_identifies (source other : String) :
    ((parse source).program.record = (parse other).program.record ↔
      (parse source).program = (parse other).program) ∧
    ((parse source).program.record.agrees (parse other).program.record = true ↔
      (parse source).program = (parse other).program) ∧
    ((parse source).errors = [] → (parse other).errors = [] →
      ∀ (strict strictOther : Bool) (system systemOther : FileSystem),
        let response := ((Request.jsonOf source strict).job.runIn system).1
        let responseOther := ((Request.jsonOf other strictOther).job.runIn systemOther).1
        response.ending = .ok 0 ∧ responseOther.ending = .ok 0 ∧
          (response.output = responseOther.output ↔
            (parse source).program = (parse other).program)) := by
  have hsource := spelled_parse source
  have hother := spelled_parse other
  have hrecords := Program.record_inj hsource hother
  refine ⟨hrecords, Program.agrees_iff hsource hother, ?_⟩
  intro herrors herrorsOther strict strictOther system systemOther
  simp only [runIn_jsonOf herrors, runIn_jsonOf herrorsOther]
  refine ⟨trivial, trivial, fun htexts => ?_, fun htrees => by rw [htrees]⟩
  have hlayouts := JsonValue.layout_injective ((String.append_left_inj _).mp htexts)
  exact hrecords.mp hlayouts

/-- A group inside leaves no trace. A group around all is seen in the first token. -/
theorem record_identifies_groups :
    (∀ source ∈ ["a + b * c", "a + (b * c)", "(a + b * c)"], (parse source).errors = []) ∧
    (let text := fun source => ((Request.jsonOf source false).job.runIn ⟨[], [], []⟩).1.output
    text "a + b * c" = text "a + (b * c)" ∧ text "a + b * c" ≠ text "(a + b * c)") := by
  have hplain : (parse "a + b * c").errors = [] := by decide +kernel
  have hinside : (parse "a + (b * c)").errors = [] := by decide +kernel
  have haround : (parse "(a + b * c)").errors = [] := by decide +kernel
  have hsame := (record_identifies _ _).2.2 hplain hinside false false ⟨[], [], []⟩ ⟨[], [], []⟩
  have hother := (record_identifies _ _).2.2 hplain haround false false ⟨[], [], []⟩ ⟨[], [], []⟩
  refine ⟨by simp [hplain, hinside, haround], ?_, ?_⟩
  · exact hsame.2.2.mpr (by decide +kernel)
  · exact mt hother.2.2.mp (by decide +kernel)

end MonkeyFront
