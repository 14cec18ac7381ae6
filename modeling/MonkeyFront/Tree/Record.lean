import MonkeyFront.Tree.Basic
import MonkeyFront.Json.Value

/-!
# Records of trees

A tree as plain data. The record of a node says what it is, the literal of its token, and then its
parts.
-/

namespace MonkeyFront

/-- The record of a node that came from a token. -/
def nodeRecord (kind : String) (token : Token) (parts : List (String × JsonValue)) : JsonValue :=
  .object (("kind", .string kind) :: ("token", .string token.literal) :: parts)

def Identifier.record (name : Identifier) : JsonValue :=
  nodeRecord "Identifier" name.token [("value", .string name.value)]

mutual

/-- An expression as plain data. -/
def Expression.record : Expression → JsonValue
  | .identifier name => name.record
  | .integer token value => nodeRecord "IntegerLiteral" token [("value", .int value)]
  | .boolean token value => nodeRecord "BooleanLiteral" token [("value", .bool value)]
  | .unary token operator operand =>
      nodeRecord "PrefixExpression" token
        [("operator", .string operator), ("right", operand.record)]
  | .binary token left operator right =>
      nodeRecord "InfixExpression" token
        [("left", left.record), ("operator", .string operator), ("right", right.record)]
  | .conditional token condition consequence none =>
      nodeRecord "IfExpression" token
        [("condition", condition.record), ("consequence", consequence.record),
          ("alternative", .null)]
  | .conditional token condition consequence (some alternative) =>
      nodeRecord "IfExpression" token
        [("condition", condition.record), ("consequence", consequence.record),
          ("alternative", alternative.record)]
  | .function token parameters body =>
      nodeRecord "FunctionLiteral" token
        [("parameters", .array (parameters.map Identifier.record)), ("body", body.record)]
  | .call token callee arguments =>
      nodeRecord "CallExpression" token
        [("function", callee.record), ("arguments", .array (Expression.recordEach arguments))]

def Expression.recordEach : List Expression → List JsonValue
  | [] => []
  | first :: others => first.record :: Expression.recordEach others

def Block.record : Block → JsonValue
  | .mk token statements =>
      nodeRecord "BlockStatement" token [("statements", .array (Statement.recordEach statements))]

def Statement.record : Statement → JsonValue
  | .binding token name none =>
      nodeRecord "LetStatement" token [("name", name.record), ("value", .null)]
  | .binding token name (some value) =>
      nodeRecord "LetStatement" token [("name", name.record), ("value", value.record)]
  | .result token none => nodeRecord "ReturnStatement" token [("return_value", .null)]
  | .result token (some value) =>
      nodeRecord "ReturnStatement" token [("return_value", value.record)]
  | .expression token none => nodeRecord "ExpressionStatement" token [("expression", .null)]
  | .expression token (some value) =>
      nodeRecord "ExpressionStatement" token [("expression", value.record)]
  | .block body => body.record

def Statement.recordEach : List Statement → List JsonValue
  | [] => []
  | first :: others => first.record :: Statement.recordEach others

end

def Program.record (program : Program) : JsonValue :=
  .object [("kind", .string "Program"),
    ("statements", .array (Statement.recordEach program.statements))]

def Node.record : Node → JsonValue
  | .program tree => tree.record
  | .statement tree => tree.record
  | .expression tree => tree.record

end MonkeyFront
