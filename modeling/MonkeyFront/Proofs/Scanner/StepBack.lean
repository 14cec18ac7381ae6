import MonkeyFront.Scanner.Basic

/-!
# Steps back are allowed

A look goes back over its own read, so it never asks whether it may. Here the same looks, and the
steps of the scanner on top of them, go back by the operation that may refuse. They come to the same,
whatever the cursor was used for before: a refused step back is out of reach.
-/

namespace MonkeyFront

/-! ## The cursor -/

namespace Cursor

/-- What was just read can be taken back. -/
theorem backup_next (cursor : Cursor) : cursor.next.2.backup = .ok cursor.next.2.stepBack := by
  unfold next
  split <;> rfl

def peekChecked (cursor : Cursor) : Except Fault (Option Char × Cursor) := do
  let after ← cursor.next.2.backup
  return (cursor.next.1, after)

def acceptChecked (allowed : Char → Bool) (cursor : Cursor) : Except Fault (Bool × Cursor) :=
  if cursor.next.1.any allowed then return (true, cursor.next.2)
  else do
    let after ← cursor.next.2.backup
    return (false, after)

theorem peekChecked_eq (cursor : Cursor) : cursor.peekChecked = .ok cursor.peek := by
  rw [peekChecked, backup_next]
  rfl

theorem acceptChecked_eq (allowed : Char → Bool) (cursor : Cursor) :
    cursor.acceptChecked allowed = .ok (cursor.accept allowed) := by
  rw [acceptChecked, accept, backup_next]
  split <;> rfl

def acceptRunChecked (allowed : Char → Bool) (cursor : Cursor) : Except Fault Cursor :=
  match _h : cursor.acceptChecked allowed with
  | .ok (true, after) => acceptRunChecked allowed after
  | .ok (false, after) => .ok after
  | .error fault => .error fault
termination_by cursor.left
decreasing_by
  rw [acceptChecked_eq, Except.ok.injEq] at _h
  have := @left_accept_lt allowed cursor
  simp_all

def skipBlanksChecked (cursor : Cursor) : Except Fault Cursor :=
  if _h : cursor.next.1.any Text.isBlank = true then skipBlanksChecked cursor.next.2.ignore
  else cursor.next.2.backup
termination_by cursor.left
decreasing_by exact left_next_of_any _h

theorem acceptRunChecked_eq (allowed : Char → Bool) (cursor : Cursor) :
    cursor.acceptRunChecked allowed = .ok (cursor.acceptRun allowed) := by
  fun_induction acceptRun allowed cursor with
  | case1 cursor h ih =>
      have heq : cursor.acceptChecked allowed = .ok (true, (cursor.accept allowed).2) := by
        rw [acceptChecked_eq, ← h]
      rw [acceptRunChecked]
      split
      next hc => cases heq.symm.trans hc; exact ih
      next hc => cases heq.symm.trans hc
      next hc => cases heq.symm.trans hc
  | case2 cursor h =>
      have heq : cursor.acceptChecked allowed = .ok (false, (cursor.accept allowed).2) := by
        rw [acceptChecked_eq, ← Bool.eq_false_iff.mpr h]
      rw [acceptRunChecked]
      split
      next hc => cases heq.symm.trans hc
      next hc => cases heq.symm.trans hc; rfl
      next hc => cases heq.symm.trans hc

theorem skipBlanksChecked_eq (cursor : Cursor) :
    cursor.skipBlanksChecked = .ok cursor.skipBlanks := by
  fun_induction skipBlanks cursor with
  | case1 cursor h ih => rw [skipBlanksChecked, dif_pos h, ih]
  | case2 cursor h => rw [skipBlanksChecked, dif_neg h, backup_next]

end Cursor

/-! ## The scanner -/

namespace Scanner

/-- The scanner to go on with, in the mode that a step asks for. -/
def outcome : StepResult → Except Fault Scanner
  | (.ok mode, after) => .ok { after with mode }
  | (.error fault, _) => .error fault

def step (scanner : Scanner) : Except Fault Scanner := outcome scanner.scan

theorem outcome_afterEnqueue (before scanner : Scanner) (token : Token) :
    outcome (afterEnqueue before (scanner.enqueue token)) =
      enqueue token { scanner with mode := .text } := by
  unfold enqueue
  split <;> rfl

def scanTextChecked (scanner : Scanner) : Except Fault Scanner := do
  let move (cursor : Cursor) : Scanner := { scanner with cursor, mode := .text }
  let start ← scanner.cursor.skipBlanksChecked
  let first ← start.acceptChecked fun c => c == '!' || c == '='
  if first.1 then
    let second ← first.2.acceptChecked (· == '=')
    (move second.2).emit (Kind.ofName second.2.lexeme)
  else
    let lone ← first.2.acceptChecked Sign.isLone
    if lone.1 then (move lone.2).emit (Kind.ofName lone.2.lexeme)
    else
      let here ← lone.2.peekChecked
      match here.1 with
      | none => return { move here.2 with mode := .done }
      | some c =>
        if isLetter c then return { move here.2 with mode := .word }
        else if isDigit c then return { move here.2 with mode := .number }
        else (move here.2.next.2).reject (illegalCharacter c)

def scanWordChecked (scanner : Scanner) : Except Fault Scanner := do
  let cursor ← scanner.cursor.acceptRunChecked isLetter
  emit (Kind.ofWord cursor.lexeme) { scanner with cursor, mode := .text }

def scanNumberChecked (scanner : Scanner) : Except Fault Scanner := do
  let digits ← scanner.cursor.acceptRunChecked isDigit
  let next ← digits.peekChecked
  if next.1.any isLetter then
    let cursor ← next.2.acceptRunChecked fun c => isLetter c || isDigit c
    reject (badNumber cursor.lexeme) { scanner with cursor, mode := .text }
  else emit .int { scanner with cursor := next.2, mode := .text }

def stepChecked (scanner : Scanner) : Except Fault Scanner :=
  match scanner.mode with
  | .text => scanner.scanTextChecked
  | .word => scanner.scanWordChecked
  | .number => scanner.scanNumberChecked
  | .done => return scanner

theorem outcome_emit (before scanner : Scanner) (kind : Kind) :
    outcome (afterEnqueue before (scanner.emit kind)) = emit kind { scanner with mode := .text } :=
  outcome_afterEnqueue before scanner _

theorem outcome_reject (before scanner : Scanner) (message : String) :
    outcome (afterEnqueue before (scanner.reject message)) =
      reject message { scanner with mode := .text } :=
  outcome_afterEnqueue before scanner _

theorem ok_bind {α β : Type} (value : α) (more : α → Except Fault β) :
    (Except.ok value >>= more) = more value := rfl

theorem scanTextChecked_eq (scanner : Scanner) :
    scanner.scanTextChecked = outcome scanner.scanText := by
  simp only [scanTextChecked, scanText, Cursor.skipBlanksChecked_eq, Cursor.acceptChecked_eq,
    Cursor.peekChecked_eq, ok_bind]
  split
  · rw [outcome_emit]
  split
  · rw [outcome_emit]
  generalize (Cursor.accept Sign.isLone _).2 = cursor
  cases cursor.peek.1 with
  | none => rfl
  | some c =>
      simp only
      split
      · rfl
      split
      · rfl
      · rw [outcome_reject]

theorem scanWordChecked_eq (scanner : Scanner) :
    scanner.scanWordChecked = outcome scanner.scanWord := by
  simp only [scanWordChecked, scanWord, Cursor.acceptRunChecked_eq, ok_bind, outcome_emit]

theorem scanNumberChecked_eq (scanner : Scanner) :
    scanner.scanNumberChecked = outcome scanner.scanNumber := by
  simp only [scanNumberChecked, scanNumber, Cursor.acceptRunChecked_eq, Cursor.peekChecked_eq,
    ok_bind]
  split
  · rw [outcome_reject]
  · rw [outcome_emit]

/-- No step is stopped by a step back that is refused. -/
theorem stepChecked_eq (scanner : Scanner) : scanner.stepChecked = scanner.step := by
  unfold stepChecked step scan
  cases hm : scanner.mode with
  | text => exact scanner.scanTextChecked_eq
  | word => exact scanner.scanWordChecked_eq
  | number => exact scanner.scanNumberChecked_eq
  | done =>
      change Except.ok scanner = Except.ok { scanner with mode := .done }
      rw [← hm]

end Scanner

end MonkeyFront
