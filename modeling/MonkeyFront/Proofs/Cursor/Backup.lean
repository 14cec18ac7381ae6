import MonkeyFront.Cursor.Call
import MonkeyFront.Proofs.Scanner.StepBack

/-!
# Steps back

The moves of a cursor are kept in a record of their own: reads, each from its place, steps back, and
drops of the pending lexeme. Whether a step back is refused, and where it leads to, can be told from
the record alone, in whatever order the cursor is called.
-/

namespace MonkeyFront.Cursor

/-! ## Moves -/

/-- What a call does to a cursor. -/
inductive Move where
  /-- A character is read from a place, or the end of the source is met there. -/
  | read (place : Nat)
  /-- The last read is taken back, or is not if that was done already. -/
  | back
  /-- The pending lexeme is dropped. -/
  | drop
  deriving DecidableEq

/-- The moves of reading an allowed character. Another one is read as well, but put back. -/
def acceptMoves (allowed : Char → Bool) (place : Nat) (ahead : List Char) : List Move :=
  if ahead.head?.any allowed then [.read place] else [.read place, .back]

/-- The moves of reading allowed characters as long as there are any, one after the other. -/
def runMoves (allowed : Char → Bool) (place : Nat) : List Char → List Move
  | [] => acceptMoves allowed place []
  | c :: ahead =>
    acceptMoves allowed place (c :: ahead) ++
      if allowed c then runMoves allowed (place + 1) ahead else []

def Call.moves (cursor : Cursor) : Call → List Move
  | .next => [.read cursor.position]
  | .backup => [.back]
  | .peek => [.read cursor.position, .back]
  | .ignore => [.drop]
  | .accept allowed => acceptMoves allowed.toList.contains cursor.position cursor.rest
  | .acceptRun allowed => runMoves allowed.toList.contains cursor.position cursor.rest
  | .lexeme | .atEnd => []

/-- The cursor after calls in a row. A call that is refused does not end the row. -/
def afterUse (cursor : Cursor) : List Call → Cursor
  | [] => cursor
  | call :: calls => afterUse (call.run cursor).2 calls

/-- The moves of calls in a row. -/
def history (cursor : Cursor) : List Call → List Move
  | [] => []
  | call :: calls => call.moves cursor ++ history (call.run cursor).2 calls

theorem afterUse_append (cursor : Cursor) (calls others : List Call) :
    afterUse cursor (calls ++ others) = afterUse (afterUse cursor calls) others := by
  induction calls generalizing cursor with
  | nil => rfl
  | cons call calls ih => exact ih _

/-- The last read or step back. -/
def lastStep? (moves : List Move) : Option Move := (moves.filter (· ≠ .drop)).getLast?

section Moves

variable (moves : List Move) (place : Nat)

@[simp] theorem lastStep?_read : lastStep? (moves ++ [.read place]) = some (.read place) := by
  simp [lastStep?]

@[simp] theorem lastStep?_back : lastStep? (moves ++ [.back]) = some .back := by
  simp [lastStep?]

@[simp] theorem lastStep?_look : lastStep? (moves ++ [.read place, .back]) = some .back := by
  simp [lastStep?]

@[simp] theorem lastStep?_drop : lastStep? (moves ++ [.drop]) = lastStep? moves := by
  simp [lastStep?]

theorem lastStep?_ne_drop : lastStep? moves ≠ some .drop := by
  intro h
  have hmem := List.mem_of_getLast? h
  simp at hmem

end Moves

/-! ## What calls keep -/

theorem fst_next (cursor : Cursor) : cursor.next.1 = cursor.rest.head? := by
  cases h : cursor.rest with
  | nil => simp [next_of_rest_nil h]
  | cons c ahead => simp [next_of_rest_cons h]

section Runs

variable {allowed : Char → Bool} {cursor : Cursor}

/-- A character that is accepted is the one ahead, and it is left behind. -/
theorem accept_of_accepted (h : (cursor.accept allowed).1 = true) :
    ∃ c ahead, cursor.rest = c :: ahead ∧ allowed c = true ∧
      (cursor.accept allowed).2 =
        { cursor with position := cursor.position + 1, width := 1, canBackUp := true } ∧
      (cursor.accept allowed).2.rest = ahead := by
  cases hr : cursor.rest with
  | nil => simp [accept, fst_next, hr] at h
  | cons c ahead =>
      by_cases hc : allowed c = true
      · have hafter : (cursor.accept allowed).2 =
            { cursor with position := cursor.position + 1, width := 1, canBackUp := true } := by
          simp [accept, next_of_rest_cons hr, hc]
        refine ⟨c, ahead, rfl, hc, hafter, ?_⟩
        rw [hafter]
        exact rest_succ hr _ _ _
      · simp [accept, fst_next, hr, hc] at h

/-- A character that is refused stays ahead. -/
theorem accept_of_refused (h : ¬(cursor.accept allowed).1 = true) :
    cursor.rest.head?.any allowed = false ∧ (cursor.accept allowed).2 = cursor.next.2.stepBack := by
  cases ha : cursor.rest.head?.any allowed with
  | false => exact ⟨rfl, by simp [accept, fst_next, ha]⟩
  | true => simp [accept, fst_next, ha] at h

/-- A run that takes a character is that and a run from there. -/
theorem runMoves_of_accepted (h : (cursor.accept allowed).1 = true) :
    runMoves allowed cursor.position cursor.rest =
      acceptMoves allowed cursor.position cursor.rest ++
        runMoves allowed (cursor.accept allowed).2.position (cursor.accept allowed).2.rest := by
  obtain ⟨c, ahead, hr, hc, hafter, hrest⟩ := accept_of_accepted h
  rw [hrest, hafter, hr, runMoves, if_pos hc]

theorem runMoves_of_refused (h : ¬(cursor.accept allowed).1 = true) :
    runMoves allowed cursor.position cursor.rest =
      acceptMoves allowed cursor.position cursor.rest := by
  cases hr : cursor.rest with
  | nil => rfl
  | cons c ahead =>
      have hc : allowed c = false := by simpa [hr] using (accept_of_refused h).1
      simp [runMoves, hc]

theorem stepBack_next (cursor : Cursor) :
    cursor.next.2.stepBack = { cursor with width := cursor.next.2.width, canBackUp := false } := by
  unfold next
  split <;> simp [stepBack]

/-- A run takes the allowed characters ahead up to the first other one. -/
theorem acceptRun_eq (allowed : Char → Bool) (cursor : Cursor) :
    (cursor.acceptRun allowed).source = cursor.source ∧
    (cursor.acceptRun allowed).start = cursor.start ∧
    (cursor.acceptRun allowed).position =
      cursor.position + (cursor.rest.takeWhile allowed).length := by
  fun_induction acceptRun allowed cursor with
  | case1 cursor haccepted ih =>
      obtain ⟨c, ahead, hr, hc, hafter, hrest⟩ := accept_of_accepted haccepted
      obtain ⟨hsource, hstart, hposition⟩ := ih
      rw [hsource, hstart, hposition, hrest, hafter, hr, List.takeWhile_cons_of_pos hc,
        List.length_cons]
      refine ⟨rfl, rfl, ?_⟩
      simp only
      omega
  | case2 cursor hrefused =>
      obtain ⟨hahead, hafter⟩ := accept_of_refused hrefused
      have hrun : cursor.rest.takeWhile allowed = [] := by
        cases hr : cursor.rest with
        | nil => rfl
        | cons c ahead =>
            have hc : allowed c = false := by simpa [hr] using hahead
            exact List.takeWhile_cons_of_neg (by simp [hc])
      rw [hafter, stepBack_next, hrun]
      exact ⟨rfl, rfl, rfl⟩

end Runs

/-- What reads, looks and drops keep of a record and its cursor. A look is a read that is taken back
at once. -/
structure Kept (P : List Move → Cursor → Prop) : Prop where
  next {moves : List Move} {cursor : Cursor} (h : P moves cursor) :
    P (moves ++ [.read cursor.position]) cursor.next.2
  look {moves : List Move} {cursor : Cursor} (h : P moves cursor) :
    P (moves ++ [.read cursor.position, .back]) cursor.next.2.stepBack
  ignore {moves : List Move} {cursor : Cursor} (h : P moves cursor) :
    P (moves ++ [.drop]) cursor.ignore

namespace Kept

variable {P : List Move → Cursor → Prop} {moves : List Move} {cursor : Cursor}

theorem accept (hP : Kept P) (allowed : Char → Bool) (h : P moves cursor) :
    P (moves ++ acceptMoves allowed cursor.position cursor.rest) (cursor.accept allowed).2 := by
  rw [acceptMoves, Cursor.accept, fst_next]
  by_cases ha : cursor.rest.head?.any allowed = true
  · rw [if_pos ha, if_pos ha]
    exact hP.next h
  · rw [if_neg ha, if_neg ha]
    exact hP.look h

theorem acceptRun (hP : Kept P) (allowed : Char → Bool) (h : P moves cursor) :
    P (moves ++ runMoves allowed cursor.position cursor.rest) (cursor.acceptRun allowed) := by
  fun_induction Cursor.acceptRun allowed cursor generalizing moves with
  | case1 cursor haccepted ih =>
      rw [runMoves_of_accepted haccepted, ← List.append_assoc]
      exact ih (hP.accept allowed h)
  | case2 cursor hrefused =>
      rw [runMoves_of_refused hrefused]
      exact hP.accept allowed h

/-- Only a call to step back needs an account of the read before it. -/
theorem run (hP : Kept P) (h : P moves cursor) {call : Call} (hcall : call ≠ .backup) :
    P (moves ++ call.moves cursor) (call.run cursor).2 := by
  cases call with
  | next => exact hP.next h
  | backup => exact absurd rfl hcall
  | peek => exact hP.look h
  | ignore => exact hP.ignore h
  | accept allowed => exact hP.accept _ h
  | acceptRun allowed => exact hP.acceptRun _ h
  | lexeme | atEnd =>
      rw [Call.moves, List.append_nil]
      exact h

theorem afterUse (hP : Kept P)
    (hback : ∀ {moves cursor}, P moves cursor →
      P (moves ++ [.back]) (Call.backup.run cursor).2)
    (h : P moves cursor) (calls : List Call) :
    P (moves ++ history cursor calls) (afterUse cursor calls) := by
  induction calls generalizing moves cursor with
  | nil =>
      rw [history, List.append_nil]
      exact h
  | cons call calls ih =>
      rw [history, Cursor.afterUse, ← List.append_assoc]
      apply ih
      by_cases hcall : call = .backup
      · subst hcall
        exact hback h
      · exact hP.run h hcall

end Kept

/-! ## What the record tells -/

/-- A cursor in a source of some size with its record. It may step back if its last read stands, and
that read took what is between its place and the cursor: a character, or nothing at the end. -/
structure Recorded (size : Nat) (moves : List Move) (cursor : Cursor) : Prop where
  size_source : cursor.source.size = size
  position_le : cursor.position ≤ size
  canBackUp_iff : cursor.canBackUp = true ↔ ∃ place, lastStep? moves = some (.read place)
  last_read : ∀ place, lastStep? moves = some (.read place) →
    cursor.position = min (place + 1) size ∧ cursor.position = place + cursor.width

namespace Recorded

variable {size place : Nat} {moves : List Move} {cursor : Cursor}

theorem next (h : Recorded size moves cursor) :
    Recorded size (moves ++ [.read cursor.position]) cursor.next.2 := by
  have hsize := h.size_source
  have hposition := h.position_le
  by_cases hlt : cursor.position < cursor.source.size
  · constructor
    all_goals simp only [Cursor.next, hlt, dite_true, lastStep?_read]
    · exact hsize
    · omega
    · simp
    · rintro place ⟨⟩
      omega
  · constructor
    all_goals simp only [Cursor.next, hlt, dite_false, lastStep?_read]
    · exact hsize
    · exact hposition
    · simp
    · rintro place ⟨⟩
      omega

theorem stepBack (h : Recorded size moves cursor) :
    Recorded size (moves ++ [.back]) cursor.stepBack where
  size_source := h.size_source
  position_le := Nat.le_trans (Nat.sub_le _ _) h.position_le
  canBackUp_iff := by simp [Cursor.stepBack]
  last_read := by simp

theorem ignore (h : Recorded size moves cursor) :
    Recorded size (moves ++ [.drop]) cursor.ignore where
  size_source := h.size_source
  position_le := h.position_le
  canBackUp_iff := by
    rw [lastStep?_drop]
    exact h.canBackUp_iff
  last_read := by
    rw [lastStep?_drop]
    exact h.last_read

theorem kept (size : Nat) : Kept (Recorded size) where
  next := next
  look h := by simpa using h.next.stepBack
  ignore := ignore

/-- A step back undoes the last read if that stands. -/
theorem backup_of_read (h : Recorded size moves cursor)
    (hread : lastStep? moves = some (.read place)) :
    Call.backup.run cursor =
      (.ok .done, { cursor with position := place, canBackUp := false }) := by
  have hcan : cursor.canBackUp = true := h.canBackUp_iff.mpr ⟨place, hread⟩
  have hplace : cursor.position - cursor.width = place := by
    have := (h.last_read place hread).2
    omega
  rw [Call.run, Cursor.backup, if_pos hcan, Cursor.stepBack, hplace]

/-- A step back is refused if no read stands. -/
theorem backup_of_no_read (h : Recorded size moves cursor)
    (hread : ∀ place, lastStep? moves ≠ some (.read place)) :
    Call.backup.run cursor = (.error (.backupWithoutRead cursor.position), cursor) := by
  have hcan : ¬cursor.canBackUp = true := by
    intro hcan
    obtain ⟨place, hp⟩ := h.canBackUp_iff.mp hcan
    exact hread place hp
  rw [Call.run, Cursor.backup, if_neg hcan]

/-- Only a read can stand, and only what was read can be taken back. -/
theorem refused_iff (h : Recorded size moves cursor) :
    (∃ fault, (Call.backup.run cursor).1 = .error fault) ↔
      lastStep? moves = none ∨ lastStep? moves = some .back := by
  constructor
  · rintro ⟨fault, hfault⟩
    cases hlast : lastStep? moves with
    | none => exact .inl rfl
    | some move =>
        cases move with
        | read place =>
            rw [h.backup_of_read hlast] at hfault
            cases hfault
        | back => exact .inr rfl
        | drop => exact absurd hlast (lastStep?_ne_drop moves)
  · intro hlast
    have hread : ∀ place, lastStep? moves ≠ some (.read place) := by
      intro place hplace
      simp [hplace] at hlast
    exact ⟨_, congrArg Prod.fst (h.backup_of_no_read hread)⟩

/-- A step back that is refused changes nothing. -/
theorem of_refused (h : Recorded size moves cursor) {fault : Fault}
    (hfault : (Call.backup.run cursor).1 = .error fault) :
    fault = .backupWithoutRead cursor.position ∧ (Call.backup.run cursor).2 = cursor := by
  by_cases hread : ∃ place, lastStep? moves = some (.read place)
  · obtain ⟨place, hplace⟩ := hread
    rw [h.backup_of_read hplace] at hfault
    cases hfault
  · rw [h.backup_of_no_read (not_exists.mp hread)] at hfault ⊢
    cases hfault
    exact ⟨rfl, rfl⟩

theorem backup (h : Recorded size moves cursor) :
    Recorded size (moves ++ [.back]) (Call.backup.run cursor).2 := by
  by_cases hcan : cursor.canBackUp = true
  · rw [Call.run, Cursor.backup, if_pos hcan]
    exact h.stepBack
  · rw [Call.run, Cursor.backup, if_neg hcan]
    exact ⟨h.size_source, h.position_le, by simp [hcan], by simp⟩

theorem ofSource (source : String) : Recorded source.length [] (ofSource source) where
  size_source := by simp [Cursor.ofSource, String.length_toList]
  position_le := Nat.zero_le _
  canBackUp_iff := by simp [Cursor.ofSource, lastStep?]
  last_read := by simp [lastStep?]

theorem afterUse (source : String) (calls : List Call) :
    Recorded source.length (history (Cursor.ofSource source) calls)
      (afterUse (Cursor.ofSource source) calls) :=
  (kept source.length).afterUse backup (ofSource source) calls

end Recorded

/-- A cursor after calls in any order. It stands in its source. A step back is refused exactly if no
read was made so far, or if the last read has been taken back, and then nothing changes. Otherwise
it leads to the place of the last read, at the end of the source too. Looks and reads of allowed
characters take back their own reads only, so these steps back are never refused, and a run takes
all allowed characters up to the first other one. -/
theorem backup_after_use (source : String) (calls : List Call) :
    let cursor := afterUse (ofSource source) calls
    let last := lastStep? (history (ofSource source) calls)
    let result := Call.backup.run cursor
    cursor.position ≤ source.length ∧
    ((∃ fault, result.1 = .error fault) ↔ last = none ∨ last = some .back) ∧
    (∀ fault, result.1 = .error fault →
      fault = .backupWithoutRead cursor.position ∧ result.2 = cursor) ∧
    (∀ place, last = some (.read place) →
      cursor.position = place + cursor.width ∧
      result = (.ok .done, { cursor with position := place, canBackUp := false })) ∧
    cursor.peekChecked = .ok cursor.peek ∧
    ∀ allowed : Char → Bool,
      cursor.acceptChecked allowed = .ok (cursor.accept allowed) ∧
      cursor.acceptRunChecked allowed = .ok (cursor.acceptRun allowed) ∧
      (cursor.acceptRun allowed).source = cursor.source ∧
      (cursor.acceptRun allowed).start = cursor.start ∧
      (cursor.acceptRun allowed).position =
        cursor.position + (cursor.rest.takeWhile allowed).length := by
  intro cursor last result
  have h : Recorded source.length (history (ofSource source) calls) cursor :=
    Recorded.afterUse source calls
  refine ⟨h.position_le, h.refused_iff, fun fault => h.of_refused, fun place hplace => ?_,
    cursor.peekChecked_eq, fun allowed => ?_⟩
  · exact ⟨(h.last_read place hplace).2, h.backup_of_read hplace⟩
  · exact ⟨acceptChecked_eq allowed cursor, acceptRunChecked_eq allowed cursor,
      acceptRun_eq allowed cursor⟩

/-- The read past the last character can be taken back, though it took none, and only once. -/
theorem backup_after_use_end :
    let calls : List Call := [.next, .peek, .next, .next, .ignore]
    lastStep? (history (ofSource "ab") calls) = some (.read 2) ∧
    Call.backup.run (afterUse (ofSource "ab") calls) = (.ok .done, ⟨#['a', 'b'], 2, 2, 0, false⟩) ∧
    Call.backup.run (afterUse (ofSource "ab") (calls ++ [.backup])) =
      (.error (.backupWithoutRead 2), ⟨#['a', 'b'], 2, 2, 0, false⟩) := by
  intro calls
  have hread : lastStep? (history (ofSource "ab") calls) = some (.read 2) := by decide
  have hback : lastStep? (history (ofSource "ab") (calls ++ [.backup])) = some .back := by decide
  have hfirst : afterUse (ofSource "ab") calls = ⟨#['a', 'b'], 2, 2, 0, true⟩ := by decide
  have hsecond : afterUse (ofSource "ab") (calls ++ [.backup]) = ⟨#['a', 'b'], 2, 2, 0, false⟩ := by
    decide
  obtain ⟨-, -, -, hplace, -⟩ := backup_after_use "ab" calls
  obtain ⟨-, hrefused, hsame, -⟩ := backup_after_use "ab" (calls ++ [.backup])
  obtain ⟨fault, hfault⟩ := hrefused.mpr (.inr hback)
  obtain ⟨rfl, hafter⟩ := hsame fault hfault
  rw [hsecond] at hfault hafter ⊢
  rw [hfirst] at hplace ⊢
  exact ⟨hread, (hplace 2 hread).2, Prod.ext hfault hafter⟩

end MonkeyFront.Cursor
