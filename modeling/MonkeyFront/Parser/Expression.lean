import MonkeyFront.Parser.Statement

/-!
# Expressions

An operand, and then the operators that bind tighter than what stands to the left. An operator takes
its right operand at its own strength, so that equal operators group to the left.
-/

namespace MonkeyFront.Parser

open Rule

/-! ## Operands -/

/-- An operator and its operand, from the operator. -/
def unary (nested : Nested) : Rule Expression := do
  let token ← current
  skip
  let operand ← nested.parse .unary
  return .unary token token.literal operand

/-- An expression in parentheses, from the opening one. The parentheses leave no node. -/
def group (nested : Nested) : Rule Expression := do
  skip
  let inside ← nested.parse .lowest
  expect (.sign .rightParen)
  return inside

/-- A choice between blocks, from its first word. -/
def conditional (nested : Nested) : Rule Expression := do
  let token ← current
  expect (.sign .leftParen)
  skip
  let condition ← nested.parse .lowest
  expect (.sign .rightParen)
  expect (.sign .leftBrace)
  let consequence ← block nested
  if (← see (peekIs (.keyword .elseWord))) then
    skip
    expect (.sign .leftBrace)
    let alternative ← block nested
    return .conditional token condition consequence (some alternative)
  else return .conditional token condition consequence none

/-- The name after a comma, from the token before the comma. -/
def nextParameter : Rule Identifier := do
  skip
  expect .ident
  identifier

theorem takes_nextParameter : Takes (peekIs (.sign .comma)) nextParameter :=
  (takes_skip fun parser h => upcoming_ne_nil_of_peekIs (by simp) h).bind fun _ =>
    (nonGrowing_expect _).bind fun _ => nonGrowing_identifier

/-- Names parted by commas, from the opening parenthesis to the closing one. -/
def parameters : Rule (List Identifier) := do
  if (← see (peekIs (.sign .rightParen))) then
    skip
    return []
  else
    expect .ident
    let first ← identifier
    let others ← many (peekIs (.sign .comma)) nextParameter takes_nextParameter
    expect (.sign .rightParen)
    return first :: others

/-- A function literal, from its first word. -/
def function (nested : Nested) : Rule Expression := do
  let token ← current
  expect (.sign .leftParen)
  let parameters ← parameters
  expect (.sign .leftBrace)
  let body ← block nested
  return .function token parameters body

/-- The expression that starts here, up to its first operator. -/
def operand (nested : Nested) : Rule Expression := do
  let token ← current
  match token.kind with
  | .ident => do return .identifier (← identifier)
  | .int => integer
  | .keyword .trueWord => boolean
  | .keyword .falseWord => boolean
  | .sign .bang => unary nested
  | .sign .minus => unary nested
  | .sign .leftParen => group nested
  | .keyword .ifWord => conditional nested
  | .keyword .fnWord => function nested
  | _ => refuse (.ofStray token)

/-! ## Operators -/

/-- An operator and its right operand after a left one, from the operator. -/
def binary (nested : Nested) (left : Expression) : Rule Expression := do
  let token ← current
  let strength ← see currentPrecedence
  skip
  let right ← nested.parse strength
  return .binary token left token.literal right

/-- The argument after a comma, from the token before the comma. -/
def nextArgument (nested : Nested) : Rule Expression := do
  skip
  skip
  nested.parse .lowest

theorem takes_nextArgument (nested : Nested) : Takes (peekIs (.sign .comma)) (nextArgument nested) :=
  (takes_skip fun parser h => upcoming_ne_nil_of_peekIs (by simp) h).bind fun _ =>
    nonGrowing_skip.bind fun _ => nested.nonGrowing _

/-- Expressions parted by commas, from the opening parenthesis to the closing one. -/
def arguments (nested : Nested) : Rule (List Expression) := do
  if (← see (peekIs (.sign .rightParen))) then
    skip
    return []
  else
    skip
    let first ← nested.parse .lowest
    let others ← many (peekIs (.sign .comma)) (nextArgument nested) (takes_nextArgument nested)
    expect (.sign .rightParen)
    return first :: others

def call (nested : Nested) (callee : Expression) : Rule Expression := do
  let token ← current
  let arguments ← arguments nested
  return .call token callee arguments

/-- An expression continued by the operator after it. -/
def continued (nested : Nested) (left : Expression) : Rule Expression := do
  skip
  if (← see (currentIs (.sign .leftParen))) then call nested left else binary nested left

/-- Whether the next token is an operator that binds tighter than a strength. -/
def bindsTighter (strength : Precedence) (parser : Parser) : Bool :=
  strength < parser.peekPrecedence

/-! ## Nothing is given back -/

theorem nonGrowing_unary (nested : Nested) : NonGrowing (unary nested) :=
  nonGrowing_current.bind fun _ => nonGrowing_skip.bind fun _ =>
  (nested.nonGrowing _).bind fun _ => nonGrowing_pure _

theorem nonGrowing_group (nested : Nested) : NonGrowing (group nested) :=
  nonGrowing_skip.bind fun _ => (nested.nonGrowing _).bind fun _ =>
  (nonGrowing_expect _).bind fun _ => nonGrowing_pure _

theorem nonGrowing_conditional (nested : Nested) : NonGrowing (conditional nested) := by
  refine nonGrowing_current.bind fun _ => (nonGrowing_expect _).bind fun _ =>
    nonGrowing_skip.bind fun _ => (nested.nonGrowing _).bind fun _ =>
    (nonGrowing_expect _).bind fun _ => (nonGrowing_expect _).bind fun _ =>
    (nonGrowing_block nested).bind fun _ => (nonGrowing_see _).bind fun _ => .ite ?_ ?_
  · exact nonGrowing_skip.bind fun _ => (nonGrowing_expect _).bind fun _ =>
      (nonGrowing_block nested).bind fun _ => nonGrowing_pure _
  · exact nonGrowing_pure _

theorem nonGrowing_parameters : NonGrowing parameters := by
  refine (nonGrowing_see _).bind fun _ => .ite ?_ ?_
  · exact nonGrowing_skip.bind fun _ => nonGrowing_pure _
  · exact (nonGrowing_expect _).bind fun _ => nonGrowing_identifier.bind fun _ =>
      (nonGrowing_many _ _ _).bind fun _ => (nonGrowing_expect _).bind fun _ => nonGrowing_pure _

theorem nonGrowing_function (nested : Nested) : NonGrowing (function nested) :=
  nonGrowing_current.bind fun _ => (nonGrowing_expect _).bind fun _ =>
  nonGrowing_parameters.bind fun _ => (nonGrowing_expect _).bind fun _ =>
  (nonGrowing_block nested).bind fun _ => nonGrowing_pure _

theorem nonGrowing_operand (nested : Nested) : NonGrowing (operand nested) := by
  refine nonGrowing_current.bind fun token => ?_
  split
  · exact nonGrowing_identifier.bind fun _ => nonGrowing_pure _
  · exact nonGrowing_integer
  · exact nonGrowing_boolean
  · exact nonGrowing_boolean
  · exact nonGrowing_unary nested
  · exact nonGrowing_unary nested
  · exact nonGrowing_group nested
  · exact nonGrowing_conditional nested
  · exact nonGrowing_function nested
  · exact nonGrowing_refuse _

theorem nonGrowing_binary (nested : Nested) (left : Expression) :
    NonGrowing (binary nested left) :=
  nonGrowing_current.bind fun _ => (nonGrowing_see _).bind fun _ =>
  nonGrowing_skip.bind fun _ => (nested.nonGrowing _).bind fun _ => nonGrowing_pure _

theorem nonGrowing_arguments (nested : Nested) : NonGrowing (arguments nested) := by
  refine (nonGrowing_see _).bind fun _ => .ite ?_ ?_
  · exact nonGrowing_skip.bind fun _ => nonGrowing_pure _
  · exact nonGrowing_skip.bind fun _ => (nested.nonGrowing _).bind fun _ =>
      (nonGrowing_many _ _ _).bind fun _ => (nonGrowing_expect _).bind fun _ => nonGrowing_pure _

theorem nonGrowing_call (nested : Nested) (callee : Expression) :
    NonGrowing (call nested callee) :=
  nonGrowing_current.bind fun _ => (nonGrowing_arguments nested).bind fun _ => nonGrowing_pure _

theorem upcoming_ne_nil_of_bindsTighter {strength : Precedence} (parser : Parser)
    (h : parser.bindsTighter strength = true) : parser.upcoming ≠ [] := by
  intro hn
  have hp : parser.peekPrecedence = .lowest := by
    simp [peekPrecedence, peekToken, hn, Token.eof, Kind.precedence, Kind.precedence?]
  rw [bindsTighter, hp] at h
  cases strength <;> simp [Precedence.lt_iff, Precedence.level] at h

theorem takes_continued (nested : Nested) (strength : Precedence) (left : Expression) :
    Takes (bindsTighter strength) (continued nested left) :=
  (takes_skip fun parser h => upcoming_ne_nil_of_bindsTighter parser h).bind fun _ =>
    (nonGrowing_see _).bind fun _ => .ite (nonGrowing_call nested left) (nonGrowing_binary nested left)

/-! ## Levels -/

/-- An expression continued by all operators that bind tighter than a strength. -/
def climb (nested : Nested) (strength : Precedence) (left : Expression) : Rule Expression :=
  fold (bindsTighter strength) (continued nested) (takes_continued nested strength) left

/-- The expression that starts here, as far as its operators bind tighter than a strength. -/
def level (nested : Nested) (strength : Precedence) : Rule Expression := do
  let left ← operand nested
  climb nested strength left

def enter (parser : Parser) : Parser :=
  { parser with
    depth := parser.depth + 1
    tally := { parser.tally with deepest := max parser.tally.deepest (parser.depth + 1) } }

def leave (parser : Parser) : Parser := { parser with depth := parser.depth - 1 }

/-- Refuses a level too many, and goes on to the end of the statement. -/
def refuseLevel : Rule Expression := onGivingUp skipStatement (refuse .tooDeep)

/-- A rule inside a level of its own. -/
def inLevel (rule : Rule Expression) : Rule Expression := fun parser =>
  let (outcome, after) := rule parser.enter
  (outcome, after.leave)

theorem nonGrowing_level (nested : Nested) (strength : Precedence) :
    NonGrowing (level nested strength) :=
  (nonGrowing_operand nested).bind fun _ => nonGrowing_fold _ _ _ _

theorem nonGrowing_refuseLevel : NonGrowing refuseLevel :=
  .onGivingUp length_skipStatement_le (nonGrowing_refuse _)

theorem NonGrowing.inLevel {rule : Rule Expression} (h : NonGrowing rule) :
    NonGrowing (inLevel rule) :=
  fun parser => h parser.enter

/-- How expressions are parsed when a number of levels may still be opened. -/
def nestedIn : (room : Nat) → Nested
  | 0 => ⟨fun _ => refuseLevel, fun _ => nonGrowing_refuseLevel⟩
  | room + 1 =>
    ⟨fun strength => inLevel (level (nestedIn room) strength),
      fun strength => NonGrowing.inLevel (nonGrowing_level (nestedIn room) strength)⟩

end MonkeyFront.Parser
