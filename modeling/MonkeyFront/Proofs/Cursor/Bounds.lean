import MonkeyFront.Proofs.Cursor.Backup

/-!
# Bounds of a cursor

Start and position of a cursor stay in its source, and the start does not come to lie behind the
position unless a step back takes back a character that was dropped. Dropping the pending lexeme
does not forget the read before it, so that can be done.
-/

namespace MonkeyFront.Cursor

/-- The last read stands, it took a character, and the character has been dropped since. -/
def DroppedRead (size : Nat) (moves : List Move) : Prop :=
  (∃ place < size, lastStep? moves = some (.read place)) ∧ moves.getLast? = some .drop

/-! ## In any order -/

/-- A cursor with its record and what is always true of its start. -/
structure Bounded (size : Nat) (moves : List Move) (cursor : Cursor) : Prop
    extends Recorded size moves cursor where
  start_le : cursor.start ≤ size
  start_le_succ : cursor.start ≤ cursor.position + 1
  start_of_read : cursor.canBackUp = true → cursor.start ≤ cursor.position
  start_of_drop : moves.getLast? = some .drop → cursor.start = cursor.position

namespace Bounded

variable {size : Nat} {moves : List Move} {cursor : Cursor}

theorem next (h : Bounded size moves cursor) :
    Bounded size (moves ++ [.read cursor.position]) cursor.next.2 := by
  have hsize := h.size_source
  have hstart := h.start_le
  have hsucc := h.start_le_succ
  refine ⟨h.toRecorded.next, ?_, ?_, ?_, by simp⟩
  all_goals
    by_cases hlt : cursor.position < cursor.source.size
    all_goals simp only [Cursor.next, hlt, dite_true, dite_false]
    all_goals omega

theorem look (h : Bounded size moves cursor) :
    Bounded size (moves ++ [.read cursor.position, .back]) cursor.next.2.stepBack := by
  refine ⟨(Recorded.kept size).look h.toRecorded, ?_, ?_, ?_, by simp⟩
  all_goals rw [stepBack_next]
  · exact h.start_le
  · exact h.start_le_succ
  · simp

theorem ignore (h : Bounded size moves cursor) :
    Bounded size (moves ++ [.drop]) cursor.ignore :=
  ⟨h.toRecorded.ignore, h.position_le, Nat.le_succ _, fun _ => Nat.le_refl _, fun _ => rfl⟩

theorem kept (size : Nat) : Kept (Bounded size) := ⟨next, look, ignore⟩

/-- A step back is one of a character at most, and it is made from behind the start. -/
theorem backup (h : Bounded size moves cursor) :
    Bounded size (moves ++ [.back]) (Call.backup.run cursor).2 := by
  have hback := h.toRecorded.backup
  by_cases hread : ∃ place, lastStep? moves = some (.read place)
  · obtain ⟨place, hplace⟩ := hread
    have hstart := h.start_of_read (h.canBackUp_iff.mpr ⟨place, hplace⟩)
    have hposition := (h.last_read place hplace).1
    rw [h.backup_of_read hplace] at hback ⊢
    refine ⟨hback, h.start_le, ?_, by simp, by simp⟩
    simp only
    omega
  · rw [h.backup_of_no_read (not_exists.mp hread)] at hback ⊢
    exact ⟨hback, h.start_le, h.start_le_succ, h.start_of_read, by simp⟩

theorem ofSource (source : String) : Bounded source.length [] (ofSource source) :=
  ⟨.ofSource source, Nat.zero_le _, Nat.zero_le _, fun _ => Nat.zero_le _, by simp⟩

theorem afterUse (source : String) (calls : List Call) :
    Bounded source.length (history (Cursor.ofSource source) calls)
      (afterUse (Cursor.ofSource source) calls) :=
  (kept source.length).afterUse backup (ofSource source) calls

/-- Where a dropped character is taken back, the start is left behind. -/
theorem backup_of_dropped (h : Bounded size moves cursor) (hd : DroppedRead size moves) :
    (Call.backup.run cursor).2.position < (Call.backup.run cursor).2.start := by
  obtain ⟨⟨place, hlt, hplace⟩, hdrop⟩ := hd
  have hstart := h.start_of_drop hdrop
  have hposition := (h.last_read place hplace).1
  rw [h.backup_of_read hplace]
  simp only
  omega

end Bounded

/-! ## In good order -/

/-- A cursor that has not come to lie before its start. A read that stands took its character from
behind the start, unless that has been dropped since. -/
structure InOrder (size : Nat) (moves : List Move) (cursor : Cursor) : Prop
    extends Bounded size moves cursor where
  start_le_position : cursor.start ≤ cursor.position
  start_le_place : ∀ place, lastStep? moves = some (.read place) → moves.getLast? ≠ some .drop →
    cursor.start ≤ place

namespace InOrder

variable {size : Nat} {moves : List Move} {cursor : Cursor}

theorem next (h : InOrder size moves cursor) :
    InOrder size (moves ++ [.read cursor.position]) cursor.next.2 := by
  have hnext := h.toBounded.next
  have hstart : cursor.next.2.start = cursor.start := by
    unfold Cursor.next
    split <;> rfl
  refine ⟨hnext, hnext.start_of_read (hnext.canBackUp_iff.mpr ⟨_, lastStep?_read _ _⟩), ?_⟩
  rw [lastStep?_read, hstart]
  rintro place ⟨⟩ -
  exact h.start_le_position

theorem look (h : InOrder size moves cursor) :
    InOrder size (moves ++ [.read cursor.position, .back]) cursor.next.2.stepBack := by
  refine ⟨h.toBounded.look, ?_, by simp⟩
  rw [stepBack_next]
  exact h.start_le_position

theorem ignore (h : InOrder size moves cursor) :
    InOrder size (moves ++ [.drop]) cursor.ignore :=
  ⟨h.toBounded.ignore, Nat.le_refl _, by simp⟩

theorem kept (size : Nat) : Kept (InOrder size) := ⟨next, look, ignore⟩

theorem backup (h : InOrder size moves cursor) (hd : ¬DroppedRead size moves) :
    InOrder size (moves ++ [.back]) (Call.backup.run cursor).2 := by
  refine ⟨h.toBounded.backup, ?_, by simp⟩
  by_cases hread : ∃ place, lastStep? moves = some (.read place)
  · obtain ⟨place, hplace⟩ := hread
    have hposition := (h.last_read place hplace).1
    rw [h.backup_of_read hplace]
    by_cases hdrop : moves.getLast? = some .drop
    · -- Nothing was read: the read came to the end of the source.
      have hend : ¬place < size := fun hlt => hd ⟨⟨place, hlt, hplace⟩, hdrop⟩
      have hstart := h.start_le_position
      simp only
      omega
    · exact h.start_le_place place hplace hdrop
  · rw [h.backup_of_no_read (not_exists.mp hread)]
    exact h.start_le_position

theorem ofSource (source : String) : InOrder source.length [] (ofSource source) :=
  ⟨.ofSource source, Nat.le_refl _, by simp [lastStep?]⟩

theorem afterUse (h : InOrder size moves cursor) (calls : List Call)
    (hd : ∀ first, first ++ [.backup] <+: calls →
      ¬DroppedRead size (moves ++ history cursor first)) :
    InOrder size (moves ++ history cursor calls) (afterUse cursor calls) := by
  induction calls generalizing moves cursor with
  | nil =>
      rw [history, List.append_nil]
      exact h
  | cons call calls ih =>
      rw [history, Cursor.afterUse, ← List.append_assoc]
      apply ih
      · by_cases hcall : call = .backup
        · subst hcall
          have hnow := hd [] (by simp)
          rw [history, List.append_nil] at hnow
          exact h.backup hnow
        · exact (kept size).run h hcall
      · intro first hfirst
        have hlater := hd (call :: first) (by simpa using hfirst)
        rwa [history, ← List.append_assoc] at hlater

end InOrder

/-- After calls in any order start and position are in the source, and the start is one ahead of the
position at most. It is ahead of it after none of the calls exactly if no call steps back over a
character that was dropped. -/
theorem start_le_position_iff (source : String) (calls : List Call) :
    let cursor := afterUse (ofSource source) calls
    cursor.start ≤ source.length ∧ cursor.position ≤ source.length ∧
    cursor.start ≤ cursor.position + 1 ∧
    ((∀ first, first <+: calls →
        (afterUse (ofSource source) first).start ≤ (afterUse (ofSource source) first).position) ↔
      ∀ first, first ++ [.backup] <+: calls →
        ¬DroppedRead source.length (history (ofSource source) first)) := by
  intro cursor
  have h : Bounded source.length (history (ofSource source) calls) cursor :=
    Bounded.afterUse source calls
  refine ⟨h.start_le, h.position_le, h.start_le_succ, ?_, ?_⟩
  · intro hbounds first hfirst hdropped
    have hback := (Bounded.afterUse source first).backup_of_dropped hdropped
    have hstart := hbounds _ hfirst
    rw [afterUse_append] at hstart
    exact absurd hstart (Nat.not_le_of_lt hback)
  · intro hd first hfirst
    have hfirst' : InOrder source.length ([] ++ history (ofSource source) first)
        (afterUse (ofSource source) first) :=
      (InOrder.ofSource source).afterUse first fun earlier hearlier =>
        hd earlier (hearlier.trans hfirst)
    exact hfirst'.start_le_position

/-- With a read between the drop and the step back all is in order, and without one it is not. -/
theorem start_le_position_iff_drops :
    (∀ first, first <+: [.next, .ignore, .next, .backup] →
      (afterUse (ofSource "ab") first).start ≤ (afterUse (ofSource "ab") first).position) ∧
    [.next, .ignore] ++ [.backup] <+: [Call.next, .ignore, .backup] ∧
    DroppedRead 2 (history (ofSource "ab") [.next, .ignore]) ∧
    ¬∀ first, first <+: [.next, .ignore, .backup] →
      (afterUse (ofSource "ab") first).start ≤ (afterUse (ofSource "ab") first).position := by
  have hdropped : DroppedRead 2 (history (ofSource "ab") [.next, .ignore]) :=
    ⟨⟨0, by decide, by decide⟩, by decide⟩
  have hbehind : [.next, .ignore] ++ [.backup] <+: [Call.next, .ignore, .backup] := List.prefix_rfl
  obtain ⟨-, -, -, hread⟩ := start_le_position_iff "ab" [.next, .ignore, .next, .backup]
  obtain ⟨-, -, -, hno⟩ := start_le_position_iff "ab" [.next, .ignore, .backup]
  refine ⟨hread.mpr ?_, hbehind, hdropped, fun hall => hno.mp hall _ hbehind hdropped⟩
  intro first hfirst
  obtain rfl : first = [.next, .ignore, .next] := by
    match first with
    | [] | [_] | [_, _] => simp at hfirst
    | [_, _, _] => simpa using hfirst
    | _ :: _ :: _ :: _ :: _ => simp at hfirst
  rintro ⟨-, hdrop⟩
  exact absurd hdrop (by decide)

/-- The bounds are not kept by calls in every order. -/
theorem start_behind_position :
    ¬∀ (source : String) (calls : List Call),
      let cursor := afterUse (ofSource source) calls
      cursor.start ≤ cursor.position ∧ cursor.position ≤ source.length := by
  intro h
  exact absurd (h "a" [.next, .ignore, .backup]).1 (by decide)

end MonkeyFront.Cursor
