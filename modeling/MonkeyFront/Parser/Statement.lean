import MonkeyFront.Parser.Literal

/-!
# Statements

Statements are parsed around a parser for the expressions in them, which is one level further down.
A statement that is given up leaves the ones around it alone: after a malformed binding or return
the parser goes on to the end of the statement.
-/

namespace MonkeyFront.Parser

open Rule

/-- How the expressions inside are parsed, given the strength that their operators have to
exceed. -/
structure Nested where
  parse : Precedence → Rule Expression
  nonGrowing : ∀ strength, NonGrowing (parse strength)

/-- A name bound to a value, from its first word. -/
def binding (nested : Nested) : Rule Statement :=
  onGivingUp skipStatement do
    let token ← current
    expect .ident
    let name ← identifier
    expect (.sign .assign)
    skip
    let value ← nested.parse .lowest
    skipOptional (.sign .semicolon)
    return .binding token name (some value)

/-- A value returned, from its first word. -/
def result (nested : Nested) : Rule Statement :=
  onGivingUp skipStatement do
    let token ← current
    skip
    let value ← nested.parse .lowest
    skipOptional (.sign .semicolon)
    return .result token (some value)

def expressionStatement (nested : Nested) : Rule Statement := do
  let token ← current
  let value ← nested.parse .lowest
  skipOptional (.sign .semicolon)
  return .expression token (some value)

def countDropped (parser : Parser) : Parser :=
  { parser with tally := { parser.tally with dropped := parser.tally.dropped + 1 } }

/-- The statement that starts here. -/
def statement (nested : Nested) : Rule Statement :=
  onGivingUp countDropped do
    let token ← current
    match token.kind with
    | .keyword .letWord => binding nested
    | .keyword .returnWord => result nested
    | _ => expressionStatement nested

/-- The statement that starts here, if it is not given up. The parser then stands after it. -/
def statementOrGap (nested : Nested) : Rule (Option Statement) := do
  let kept ← attempt (statement nested)
  skip
  return kept

/-! ## Nothing is given back -/

theorem nonGrowing_close : NonGrowing (skipOptional (.sign .semicolon)) :=
  nonGrowing_skipOptional _

theorem length_skipStatement_le (parser : Parser) :
    parser.skipStatement.upcoming.length ≤ parser.upcoming.length :=
  length_fromStatementEnd_le _

theorem nonGrowing_binding (nested : Nested) : NonGrowing (binding nested) :=
  .onGivingUp length_skipStatement_le <|
    nonGrowing_current.bind fun _ => (nonGrowing_expect _).bind fun _ =>
    nonGrowing_identifier.bind fun _ => (nonGrowing_expect _).bind fun _ =>
    nonGrowing_skip.bind fun _ => (nested.nonGrowing _).bind fun _ =>
    nonGrowing_close.bind fun _ => nonGrowing_pure _

theorem nonGrowing_result (nested : Nested) : NonGrowing (result nested) :=
  .onGivingUp length_skipStatement_le <|
    nonGrowing_current.bind fun _ => nonGrowing_skip.bind fun _ =>
    (nested.nonGrowing _).bind fun _ => nonGrowing_close.bind fun _ => nonGrowing_pure _

theorem nonGrowing_expressionStatement (nested : Nested) :
    NonGrowing (expressionStatement nested) :=
  nonGrowing_current.bind fun _ => (nested.nonGrowing _).bind fun _ =>
  nonGrowing_close.bind fun _ => nonGrowing_pure _

theorem nonGrowing_statement (nested : Nested) : NonGrowing (statement nested) := by
  refine .onGivingUp (fun _ => Nat.le_refl _) (nonGrowing_current.bind fun token => ?_)
  split
  · exact nonGrowing_binding nested
  · exact nonGrowing_result nested
  · exact nonGrowing_expressionStatement nested

theorem takes_statementOrGap (nested : Nested) {goOn : Parser → Bool}
    (h : ∀ parser, goOn parser = true → parser.upcoming ≠ []) :
    Takes goOn (statementOrGap nested) :=
  takes_bind_skip h (nonGrowing_statement nested).attempt (fun _ => by simp [attempt])
    fun _ => nonGrowing_pure _

/-! ## Rows of statements -/

/-- Whether the parser stands inside a block that is still open. -/
def insideBlock (parser : Parser) : Bool :=
  !parser.currentIs (.sign .rightBrace) && !parser.currentIs .eof

/-- Whether the parser stands before the end of the source. -/
def beforeEnd (parser : Parser) : Bool := !parser.currentIs .eof

theorem upcoming_ne_nil_of_insideBlock (parser : Parser) (h : parser.insideBlock = true) :
    parser.upcoming ≠ [] := by
  simp only [insideBlock, Bool.and_eq_true, Bool.not_eq_true'] at h
  exact upcoming_ne_nil_of_not_eof h.2

theorem upcoming_ne_nil_of_beforeEnd (parser : Parser) (h : parser.beforeEnd = true) :
    parser.upcoming ≠ [] := by
  simp only [beforeEnd, Bool.not_eq_true'] at h
  exact upcoming_ne_nil_of_not_eof h

/-- Statements in braces, from the opening brace to the closing one. -/
def block (nested : Nested) : Rule Block := do
  let token ← current
  skip
  let statements ← many insideBlock (statementOrGap nested)
    (takes_statementOrGap nested upcoming_ne_nil_of_insideBlock)
  if (← see (currentIs .eof)) then refuse (.unexpected (.sign .rightBrace) .eof)
  else return .mk token (statements.filterMap id)

/-- All statements up to the end of the source. -/
def program (nested : Nested) : Rule Program := do
  let statements ← many beforeEnd (statementOrGap nested)
    (takes_statementOrGap nested upcoming_ne_nil_of_beforeEnd)
  return ⟨statements.filterMap id⟩

theorem nonGrowing_block (nested : Nested) : NonGrowing (block nested) := by
  refine nonGrowing_current.bind fun _ => nonGrowing_skip.bind fun _ =>
    (nonGrowing_many _ _ _).bind fun _ => (nonGrowing_see _).bind fun _ => .ite ?_ ?_
  · exact nonGrowing_refuse _
  · exact nonGrowing_pure _

end MonkeyFront.Parser
