import MonkeyFront.Token.Basic

/-!
# Syntax trees

A program is a list of statements. Every node keeps the token it came from; parentheses that only
group leave no node.
-/

namespace MonkeyFront

/-- A name and the token it came from. -/
structure Identifier where
  token : Token
  value : String
  deriving DecidableEq

mutual

inductive Expression where
  | identifier (name : Identifier)
  | integer (token : Token) (value : Int)
  | boolean (token : Token) (value : Bool)
  | unary (token : Token) (operator : String) (operand : Expression)
  | binary (token : Token) (left : Expression) (operator : String) (right : Expression)
  /-- A choice between two blocks, the second of which may be missing. -/
  | conditional (token : Token) (condition : Expression) (consequence : Block)
      (alternative : Option Block)
  | function (token : Token) (parameters : List Identifier) (body : Block)
  | call (token : Token) (callee : Expression) (arguments : List Expression)

/-- A statement. Parsing always gives it a value. -/
inductive Statement where
  | binding (token : Token) (name : Identifier) (value : Option Expression)
  | result (token : Token) (value : Option Expression)
  /-- An expression for its own sake. -/
  | expression (token : Token) (value : Option Expression)
  /-- A block in the place of a statement. -/
  | block (body : Block)

/-- Statements between braces. -/
inductive Block where
  | mk (token : Token) (statements : List Statement)

end

structure Program where
  statements : List Statement

namespace Block

def token : Block → Token
  | mk token _ => token

def statements : Block → List Statement
  | mk _ statements => statements

end Block

def Expression.token : Expression → Token
  | .identifier name => name.token
  | .integer token _ | .boolean token _ | .unary token _ _ | .binary token _ _ _
  | .conditional token _ _ _ | .function token _ _ | .call token _ _ => token

def Statement.token : Statement → Token
  | .binding token _ _ | .result token _ | .expression token _ => token
  | .block body => body.token

/-- The literal of the first token of a program, if it has a statement. -/
def Program.tokenLiteral (program : Program) : String :=
  match program.statements with
  | [] => ""
  | first :: _ => first.token.literal

/-- Any part of a tree. -/
inductive Node where
  | program (tree : Program)
  | statement (tree : Statement)
  | expression (tree : Expression)

def Node.tokenLiteral : Node → String
  | .program tree => tree.tokenLiteral
  | .statement tree => tree.token.literal
  | .expression tree => tree.token.literal

end MonkeyFront
