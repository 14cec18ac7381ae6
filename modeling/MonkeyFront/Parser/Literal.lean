import MonkeyFront.Parser.Rule
import MonkeyFront.Tree.Basic

/-!
# Literals

Expressions of a single token.
-/

namespace MonkeyFront

/-- The longest integer literal, leading zeros included. -/
def maxIntegerDigits : Nat := 4300

/-- The largest integer literal: integers are signed words of 64 bits. -/
def maxInteger : Nat := Nat.pow 2 63 - 1

/-- The number that decimal digits stand for. -/
def decimalValue (digits : List Char) : Nat :=
  digits.foldl (fun value c => 10 * value + (c.toNat - '0'.toNat)) 0

/-- The value of an integer literal: digits only, not too many of them, and in range. -/
def integerValue? (literal : String) : Option Nat :=
  let digits := literal.toList
  if digits ≠ [] ∧ digits.all isDigit = true ∧ digits.length ≤ maxIntegerDigits
    ∧ decimalValue digits ≤ maxInteger then some (decimalValue digits)
  else none

namespace Parser

open Rule

/-- The token under examination as a name. -/
def identifier : Rule Identifier := do
  let token ← current
  return ⟨token, token.literal⟩

/-- The token under examination as an integer. -/
def integer : Rule Expression := do
  let token ← current
  match integerValue? token.literal with
  | some value => return .integer token value
  | none => refuse (.badInteger token.literal)

/-- The token under examination as a truth value: true if it is that word. -/
def boolean : Rule Expression := do
  let token ← current
  return .boolean token (token.kind == .keyword .trueWord)

theorem nonGrowing_identifier : NonGrowing identifier :=
  nonGrowing_current.bind fun _ => nonGrowing_pure _

theorem nonGrowing_integer : NonGrowing integer := by
  refine nonGrowing_current.bind fun token => ?_
  split
  · exact nonGrowing_pure _
  · exact nonGrowing_refuse _

theorem nonGrowing_boolean : NonGrowing boolean :=
  nonGrowing_current.bind fun _ => nonGrowing_pure _

end Parser

end MonkeyFront
