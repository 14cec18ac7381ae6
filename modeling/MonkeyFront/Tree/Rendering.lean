import MonkeyFront.Tree.Basic

/-!
# Rendering of trees

A tree as one line of source text. Every operator stands in parentheses of its own with its
operands, so that the text shows how the operands were grouped.
-/

namespace MonkeyFront

def Identifier.render (name : Identifier) : String := name.value

/-- Texts in a row, parted by commas. -/
def commaSeparated (texts : List String) : String := String.intercalate ", " texts

mutual

/-- An expression as source text. Literals are written as they stood in the source. -/
def Expression.render : Expression → String
  | .identifier name => name.render
  | .integer token _ => token.literal
  | .boolean token _ => token.literal
  | .unary _ operator operand => "(" ++ operator ++ operand.render ++ ")"
  | .binary _ left operator right =>
      "(" ++ left.render ++ " " ++ operator ++ " " ++ right.render ++ ")"
  | .conditional _ condition consequence none =>
      "if" ++ condition.render ++ " " ++ consequence.render
  | .conditional _ condition consequence (some alternative) =>
      "if" ++ condition.render ++ " " ++ consequence.render ++ "else " ++ alternative.render
  | .function token parameters body =>
      token.literal ++ "(" ++ commaSeparated (parameters.map Identifier.render) ++ ") "
        ++ body.render
  | .call _ callee arguments =>
      callee.render ++ "(" ++ commaSeparated (Expression.renderEach arguments) ++ ")"

def Expression.renderEach : List Expression → List String
  | [] => []
  | first :: others => first.render :: Expression.renderEach others

/-- A block as source text, without its braces. -/
def Block.render : Block → String
  | .mk _ statements => Statement.renderAll statements

def Statement.render : Statement → String
  | .binding token name none => token.literal ++ " " ++ name.render ++ " = ;"
  | .binding token name (some value) =>
      token.literal ++ " " ++ name.render ++ " = " ++ value.render ++ ";"
  | .result token none => token.literal ++ ";"
  | .result token (some value) => token.literal ++ " " ++ value.render ++ ";"
  | .expression _ none => ""
  | .expression _ (some value) => value.render
  | .block body => body.render

/-- Statements as source text, one after the other. -/
def Statement.renderAll : List Statement → String
  | [] => ""
  | first :: others => first.render ++ Statement.renderAll others

end

def Program.render (program : Program) : String := Statement.renderAll program.statements

def Node.render : Node → String
  | .program tree => tree.render
  | .statement tree => tree.render
  | .expression tree => tree.render

end MonkeyFront
