import Mathlib.Logic.Function.Iterate
import MonkeyFront.Session

/-!
# Independence of lines

What a session says at a line depends on that line and on whether tokens are shown, and only lines
that ask for it change whether they are. So a session is its lines one after the other.
-/

namespace MonkeyFront.Session

/-! ## One line -/

/-- A line that ends the session. -/
def Leaves (line : String) : Prop :=
  Text.trimBlanks line = "exit" ∨ Text.trimBlanks line = "quit"

/-- A line that turns the showing of tokens on or off. -/
def Toggles (line : String) : Prop := Text.trimBlanks line = "tokens"

instance : DecidablePred Leaves := fun _ => instDecidableOr

instance : DecidablePred Toggles := fun _ => instDecidableEqString _ _

/-- What is said at a line that does not end the session. -/
def ownOutput (showTokens : Bool) (line : String) : String :=
  let source := Text.trimBlanks line
  if source = "" then ""
  else if source = "tokens" then
    "[mode] >>> Token mode " ++ (if showTokens then "OFF" else "ON") ++ "\n"
  else evaluate showTokens source

/-- Whether tokens are shown after some lines. -/
def modeAfter (showTokens : Bool) (lines : List String) : Bool :=
  Nat.iterate not (lines.countP Toggles) showTokens

/-- What is said at some lines that do not end the session, with the prompts. -/
def spoken (showTokens : Bool) (lines : List String) : String :=
  String.join
    (lines.mapIdx fun i line => prompt ++ ownOutput (modeAfter showTokens (lines.take i)) line)

theorem modeAfter_append (showTokens : Bool) (lines others : List String) :
    modeAfter showTokens (lines ++ others) = modeAfter (modeAfter showTokens lines) others := by
  rw [modeAfter, List.countP_append, Nat.add_comm]
  exact Function.iterate_add_apply not _ _ showTokens

theorem modeAfter_cons (showTokens : Bool) (line : String) (lines : List String) :
    modeAfter showTokens (line :: lines) = modeAfter (modeAfter showTokens [line]) lines :=
  modeAfter_append showTokens [line] lines

theorem spoken_cons (showTokens : Bool) (line : String) (lines : List String) :
    spoken showTokens (line :: lines) =
      prompt ++ ownOutput showTokens line ++ spoken (modeAfter showTokens [line]) lines := by
  simp only [spoken, List.mapIdx_cons, String.join_cons, List.take_succ_cons,
    modeAfter_cons showTokens line (List.take _ _)]
  rfl

theorem turn_of_leaves {line : String} (h : Leaves line) (showTokens : Bool) :
    turn showTokens line = ⟨showTokens, true, farewell, []⟩ := by
  unfold turn
  rcases h with h | h <;> simp [h]

/-- A line that does not end the session gets its own answer, and changes nothing but whether tokens
are shown. -/
theorem turn_of_not_leaves {line : String} (h : ¬ Leaves line) (showTokens : Bool) :
    (turn showTokens line).ends = false ∧
      (turn showTokens line).output = ownOutput showTokens line ∧
      (turn showTokens line).showTokens = modeAfter showTokens [line] := by
  unfold Leaves at h
  unfold turn ownOutput modeAfter
  by_cases hempty : Text.trimBlanks line = ""
  · simp [hempty, Toggles]
  by_cases htoggles : Text.trimBlanks line = "tokens"
  · simp [htoggles, Toggles]
  · simp [h, hempty, htoggles, Toggles]

/-! ## Sessions that are interrupted -/

/-- What comes at a prompt: a line, or an interruption. -/
inductive Arrival where
  | line (text : String)
  | interruption
  deriving DecidableEq

/-- The lines that come before an interruption. -/
def uninterrupted : List Arrival → List String
  | .line text :: later => text :: uninterrupted later
  | _ => []

/-- The session from a prompt on, and what is left unread after it. An interruption ends it, and so
does the end of what comes. -/
def listen (showTokens : Bool) : List Arrival → Transcript × List Arrival
  | [] => (⟨prompt ++ "\n" ++ farewell, []⟩, [])
  | .interruption :: later => (⟨prompt ++ "\n" ++ farewell, []⟩, later)
  | .line text :: later =>
    let answer := turn showTokens text
    if answer.ends then (⟨prompt ++ answer.output, answer.log⟩, later)
    else
      let (transcript, unread) := listen answer.showTokens later
      (transcript.after (prompt ++ answer.output) answer.log, unread)

/-- An interruption is like the end of the input. -/
theorem listen_fst (showTokens : Bool) (arrivals : List Arrival) :
    (listen showTokens arrivals).1 = converse showTokens (uninterrupted arrivals) := by
  induction arrivals generalizing showTokens with
  | nil => rfl
  | cons arrival later ih =>
      cases arrival with
      | interruption => rfl
      | line text =>
          simp only [listen, uninterrupted, converse]
          split
          · rfl
          · exact congrArg (Transcript.after _ _) (ih _)

theorem uninterrupted_lines (lines : List String) :
    uninterrupted (lines.map .line) = lines := by
  induction lines with
  | nil => rfl
  | cons line lines ih => exact congrArg (line :: ·) ih

/-- The output of a session with all that comes at its prompts, and what is left unread after it. -/
def attend (showTokens : Bool) (arrivals : List Arrival) : String × List Arrival :=
  let (transcript, unread) := listen showTokens arrivals
  (greeting ++ transcript.output, unread)

/-! ## All lines -/

/-- A session with some lines says what is to be said at them, and then goes on as one that has just
come to a prompt. -/
theorem listen_append {lines : List String} (h : ∀ line ∈ lines, ¬ Leaves line)
    (showTokens : Bool) (later : List Arrival) :
    (listen showTokens (lines.map .line ++ later)).1.output =
      spoken showTokens lines ++ (listen (modeAfter showTokens lines) later).1.output ∧
    (listen showTokens (lines.map .line ++ later)).2 =
      (listen (modeAfter showTokens lines) later).2 := by
  induction lines generalizing showTokens with
  | nil => exact ⟨String.empty_append.symm, rfl⟩
  | cons line lines ih =>
      obtain ⟨hends, houtput, hmode⟩ := turn_of_not_leaves (h line List.mem_cons_self) showTokens
      have hrest := ih (fun other hm => h other (List.mem_cons_of_mem _ hm))
        (modeAfter showTokens [line])
      simp only [List.map_cons, List.cons_append, listen, hends, houtput, hmode, spoken_cons,
        modeAfter_cons showTokens line lines, Transcript.after, Bool.false_eq_true, if_false,
        hrest, String.append_assoc, and_self]

theorem attend_append {lines : List String} (h : ∀ line ∈ lines, ¬ Leaves line) (showTokens : Bool)
    (later : List Arrival) :
    attend showTokens (lines.map .line ++ later) =
      (greeting ++ spoken showTokens lines ++
          (listen (modeAfter showTokens lines) later).1.output,
        (listen (modeAfter showTokens lines) later).2) := by
  have happend := listen_append h showTokens later
  simp only [attend, happend, String.append_assoc]

/-- Without an interruption, that is the session itself. -/
theorem hold_lines (showTokens : Bool) (lines : List String) :
    (hold showTokens lines).output = (attend showTokens (lines.map .line)).1 := by
  simp only [hold, attend, Transcript.after, listen_fst, uninterrupted_lines]

/-- Lines at which a session does not end have nothing to do with each other, but for whether tokens
are shown. The session greets, says at each line what that line alone is answered with, after a
prompt, and goes on as a session does that has shown nothing yet, with tokens shown or not as often
as that was changed. It ends at the first line that asks for it, at an interruption, or with what
comes; what comes after is not read. -/
theorem lines_independent (showTokens : Bool) {lines : List String}
    (h : ∀ line ∈ lines, ¬ Leaves line) :
    (∀ others, (hold showTokens (lines ++ others)).output =
      greeting ++ spoken showTokens lines ++
        (converse (modeAfter showTokens lines) others).output) ∧
    (∀ later, attend showTokens (lines.map .line ++ later) =
      (greeting ++ spoken showTokens lines ++
          (listen (modeAfter showTokens lines) later).1.output,
        (listen (modeAfter showTokens lines) later).2)) ∧
    (∀ line later, Leaves line → attend showTokens (lines.map .line ++ .line line :: later) =
      (greeting ++ spoken showTokens lines ++ (prompt ++ farewell), later)) ∧
    (∀ later, attend showTokens (lines.map .line ++ .interruption :: later) =
      (greeting ++ spoken showTokens lines ++ (prompt ++ "\n" ++ farewell), later)) ∧
    attend showTokens (lines.map .line) =
      (greeting ++ spoken showTokens lines ++ (prompt ++ "\n" ++ farewell), []) ∧
    ∀ arrivals, (attend showTokens arrivals).1 =
      (hold showTokens (uninterrupted arrivals)).output := by
  refine ⟨fun others => ?_, attend_append h showTokens, fun line later hleaves => ?_,
    fun later => attend_append h showTokens _, ?_, fun arrivals => ?_⟩
  · rw [hold_lines, List.map_append, attend_append h, listen_fst, uninterrupted_lines]
  · rw [attend_append h]
    simp [listen, turn_of_leaves hleaves]
  · have hnothing := attend_append h showTokens []
    rwa [List.append_nil] at hnothing
  · simp only [attend, hold, Transcript.after, listen_fst]

/-- A refused text leaves no trace, and the same text is answered in two ways with the mode changed
in between. -/
theorem lines_independent_toggled :
    let lines := [" ", "let", "-a", " tokens", "-a"]
    let said := ">> >> [error] >>> parser errors:\n" ++
      "\texpected next token to be IDENT, got EOF instead\n>> (-a)\n" ++
      ">> [mode] >>> Token mode ON\n>> Token(-, -)\nToken(IDENT, a)\nToken(EOF, )\n"
    (∀ line ∈ lines, ¬ Leaves line) ∧ Leaves "quit " ∧
      attend false (lines.map .line ++ .line "quit " :: [.line "b"]) =
        (greeting ++ said ++ ">> Exiting Monkey REPL.\n", [.line "b"]) := by
  intro lines said
  have hlines : ∀ line ∈ lines, ¬ Leaves line := by decide +kernel
  have hleaves : Leaves "quit " := by decide +kernel
  have hspoken : spoken false lines = said := by decide +kernel
  have hend := (lines_independent false hlines).2.2.1 "quit " [.line "b"] hleaves
  rw [hspoken] at hend
  exact ⟨hlines, hleaves, hend⟩

end MonkeyFront.Session
