import MonkeyFront.Tree.Basic

/-!
# The yield of a tree

The tokens that the nodes of a tree keep, in the order in which a source has them: an operator
between its operands, the parenthesis of a call behind the callee. Parentheses that only group,
commas, semicolons and closing braces are kept by no node. The token of an expression statement is
the first one of its expression, so it is not counted again.
-/

namespace MonkeyFront

mutual

def Expression.yield : Expression → List Token
  | .identifier name => [name.token]
  | .integer token _ => [token]
  | .boolean token _ => [token]
  | .unary token _ operand => token :: operand.yield
  | .binary token left _ right => left.yield ++ token :: right.yield
  | .conditional token condition consequence none =>
      token :: condition.yield ++ consequence.yield
  | .conditional token condition consequence (some alternative) =>
      token :: condition.yield ++ consequence.yield ++ alternative.yield
  | .function token parameters body => token :: parameters.map (·.token) ++ body.yield
  | .call token callee arguments => callee.yield ++ token :: Expression.yieldEach arguments

def Expression.yieldEach : List Expression → List Token
  | [] => []
  | first :: others => first.yield ++ Expression.yieldEach others

def Block.yield : Block → List Token
  | .mk token statements => token :: Statement.yieldEach statements

def Statement.yield : Statement → List Token
  | .binding token name none => [token, name.token]
  | .binding token name (some value) => token :: name.token :: value.yield
  | .result token none => [token]
  | .result token (some value) => token :: value.yield
  | .expression _ none => []
  | .expression _ (some value) => value.yield
  | .block body => body.yield

def Statement.yieldEach : List Statement → List Token
  | [] => []
  | first :: others => first.yield ++ Statement.yieldEach others

end

def Program.yield (program : Program) : List Token := Statement.yieldEach program.statements

theorem Expression.yieldEach_eq (trees : List Expression) :
    Expression.yieldEach trees = trees.flatMap Expression.yield := by
  induction trees with
  | nil => rfl
  | cons first others ih => rw [Expression.yieldEach, ih, List.flatMap_cons]

/-- Statements that were given up leave nothing in the yield of the others. -/
theorem Statement.yieldEach_filterMap (values : List (Option Statement)) :
    Statement.yieldEach (values.filterMap id) =
      values.flatMap fun kept => kept.elim [] Statement.yield := by
  induction values with
  | nil => rfl
  | cons first others ih =>
      cases first with
      | none => exact ih
      | some tree => exact congrArg (tree.yield ++ ·) ih

end MonkeyFront
