import MonkeyFront.Fault
import MonkeyFront.Text.Blank

/-!
# Cursor

A reading position in a source text, with one character of step back. The text between `start` and
`position` is the pending lexeme. `rest` is the view of the position for proofs: what is left to
read.
-/

namespace MonkeyFront

/-- A position in a source text. `width` is the number of characters that the last read took, none
at the end of the source, and `canBackUp` holds from a read until it is taken back. -/
structure Cursor where
  source : Array Char
  start : Nat
  position : Nat
  width : Nat
  canBackUp : Bool
  deriving DecidableEq

namespace Cursor

/-- The cursor before the first character of a text. -/
def ofSource (text : String) : Cursor := ⟨text.toList.toArray, 0, 0, 0, false⟩

def rest (cursor : Cursor) : List Char := cursor.source.toList.drop cursor.position

/-- How many characters are left to read. -/
def left (cursor : Cursor) : Nat := cursor.source.size - cursor.position

theorem length_rest (cursor : Cursor) : cursor.rest.length = cursor.left := by
  simp [rest, left]

def atEnd (cursor : Cursor) : Bool := cursor.source.size ≤ cursor.position

def next (cursor : Cursor) : Option Char × Cursor :=
  if h : cursor.position < cursor.source.size then
    (some cursor.source[cursor.position],
      { cursor with position := cursor.position + 1, width := 1, canBackUp := true })
  else (none, { cursor with width := 0, canBackUp := true })

/-- Goes back over what the last read took. -/
def stepBack (cursor : Cursor) : Cursor :=
  { cursor with position := cursor.position - cursor.width, canBackUp := false }

/-- Goes back over what the last read took, unless that was done already. -/
def backup (cursor : Cursor) : Except Fault Cursor :=
  if cursor.canBackUp then .ok cursor.stepBack
  else .error (.backupWithoutRead cursor.position)

/-- The character that a read would take. The look is a read that is taken back. -/
def peek (cursor : Cursor) : Option Char × Cursor :=
  (cursor.next.1, cursor.next.2.stepBack)

def ignore (cursor : Cursor) : Cursor := { cursor with start := cursor.position }

/-- Reads a character if it is an allowed one. -/
def accept (allowed : Char → Bool) (cursor : Cursor) : Bool × Cursor :=
  if cursor.next.1.any allowed then (true, cursor.next.2) else (false, cursor.next.2.stepBack)

/-- The pending lexeme. It is empty when `start` has been left behind the position. -/
def lexeme (cursor : Cursor) : String :=
  String.ofList (cursor.source.extract cursor.start cursor.position).toList

/-! ## One step -/

theorem next_of_rest_nil {cursor : Cursor} (h : cursor.rest = []) :
    cursor.next = (none, { cursor with width := 0, canBackUp := true }) := by
  have : ¬ cursor.position < cursor.source.size := by
    simpa [rest] using h
  simp [next, this]

theorem next_of_rest_cons {cursor : Cursor} {c : Char} {more : List Char}
    (h : cursor.rest = c :: more) :
    cursor.next =
      (some c, { cursor with position := cursor.position + 1, width := 1, canBackUp := true }) := by
  have hlt : cursor.position < cursor.source.size := by
    have : cursor.rest.length = more.length + 1 := by simp [h]
    rw [length_rest, left] at this
    omega
  have hc : cursor.source[cursor.position] = c := by
    have := List.drop_eq_getElem_cons (l := cursor.source.toList) (by simpa using hlt)
    rw [rest, this] at h
    simpa using (List.cons.inj h).1
  simp [next, hlt, hc]

theorem rest_succ {cursor : Cursor} {c : Char} {more : List Char} (h : cursor.rest = c :: more)
    (start width : Nat) (canBackUp : Bool) :
    rest ⟨cursor.source, start, cursor.position + 1, width, canBackUp⟩ = more := by
  have : cursor.rest.tail = more := by simp [h]
  simpa [rest] using this

theorem left_next_of_any {cursor : Cursor} {allowed : Char → Bool}
    (h : cursor.next.1.any allowed = true) : cursor.next.2.left < cursor.left := by
  unfold next at h ⊢
  split at h
  · simp only [*, dite_true, left]
    omega
  · simp at h

theorem left_peek (cursor : Cursor) : cursor.peek.2.left = cursor.left := by
  unfold peek next
  split <;> simp [stepBack, left]

theorem peek_peek (cursor : Cursor) : cursor.peek.2.peek = cursor.peek := by
  unfold peek next
  split <;> simp_all [stepBack]

theorem left_accept_le (allowed : Char → Bool) (cursor : Cursor) :
    (cursor.accept allowed).2.left ≤ cursor.left := by
  unfold accept
  split
  next h => exact Nat.le_of_lt (left_next_of_any h)
  next => exact Nat.le_of_eq cursor.left_peek

theorem left_accept_lt {allowed : Char → Bool} {cursor : Cursor}
    (h : (cursor.accept allowed).1 = true) : (cursor.accept allowed).2.left < cursor.left := by
  unfold accept at h ⊢
  split at h
  next hany => simpa [hany] using left_next_of_any hany
  next => simp at h

/-! ## Runs -/

/-- Reads allowed characters as long as there are any. -/
def acceptRun (allowed : Char → Bool) (cursor : Cursor) : Cursor :=
  if _h : (cursor.accept allowed).1 = true then acceptRun allowed (cursor.accept allowed).2
  else (cursor.accept allowed).2
termination_by cursor.left
decreasing_by exact left_accept_lt _h

theorem left_acceptRun_le (allowed : Char → Bool) (cursor : Cursor) :
    (cursor.acceptRun allowed).left ≤ cursor.left := by
  fun_induction acceptRun allowed cursor with
  | case1 cursor _ ih => exact Nat.le_trans ih (left_accept_le allowed cursor)
  | case2 cursor _ => exact left_accept_le allowed cursor

theorem left_acceptRun_lt {allowed : Char → Bool} {cursor : Cursor}
    (h : cursor.peek.1.any allowed = true) : (cursor.acceptRun allowed).left < cursor.left := by
  have h' : (cursor.accept allowed).1 = true := by
    have : cursor.next.1.any allowed = true := h
    simp [accept, this]
  rw [acceptRun, dif_pos h']
  exact Nat.lt_of_le_of_lt (left_acceptRun_le allowed _) (left_accept_lt h')

/-- Drops blanks, and the pending lexeme with them. -/
def skipBlanks (cursor : Cursor) : Cursor :=
  if _h : cursor.next.1.any Text.isBlank = true then skipBlanks cursor.next.2.ignore
  else cursor.next.2.stepBack
termination_by cursor.left
decreasing_by exact left_next_of_any _h

theorem left_skipBlanks_le (cursor : Cursor) : cursor.skipBlanks.left ≤ cursor.left := by
  fun_induction skipBlanks cursor with
  | case1 cursor h ih => exact Nat.le_trans ih (Nat.le_of_lt (left_next_of_any h))
  | case2 cursor _ => exact Nat.le_of_eq cursor.left_peek

end Cursor

end MonkeyFront
