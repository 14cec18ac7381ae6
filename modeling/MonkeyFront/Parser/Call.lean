import MonkeyFront.Parser.Program

/-!
# Calls of the parser

A parser can be called rule by rule, wherever it stands. A call has an answer and leaves the parser
where it moved to.
-/

namespace MonkeyFront.Parser

/-- What can be asked of a parser. -/
inductive Call where
  | advance
  | skipStatement
  | program
  | statement
  | binding
  | result
  | expressionStatement
  | block
  | identifier
  | integer
  | boolean
  | unary
  | group
  | conditional
  | function
  | parameters
  | arguments
  | expression (strength : Precedence)
  | binary (left : Expression)
  | call (callee : Expression)
  | expect (kind : Kind)
  | currentIs (kind : Kind)
  | peekIs (kind : Kind)
  | currentPrecedence
  | peekPrecedence
  | errors
  /-- A report that the next token is not of a kind. -/
  | unexpected (kind : Kind)
  /-- A report that no expression starts with a token. -/
  | stray (token : Token)
  | remark (text : String)

/-- What a call comes back with. -/
inductive Answer where
  | done
  | truth (value : Bool)
  | strength (value : Precedence)
  | texts (values : List String)
  /-- A tree, unless the rule gave up. -/
  | tree (outcome : Option Node)
  /-- Trees in a row, unless the rule gave up. -/
  | trees (outcome : Option (List Node))

namespace Call

/-- Runs a rule and answers with the tree it yields. -/
def parse {α : Type} (rule : Rule α) (node : α → Node) (parser : Parser) : Answer × Parser :=
  (.tree ((rule parser).1.map node), (rule parser).2)

/-- Runs a rule and answers with the trees it yields. -/
def parseEach {α : Type} (rule : Rule (List α)) (node : α → Node) (parser : Parser) :
    Answer × Parser :=
  (.trees ((rule parser).1.map (List.map node)), (rule parser).2)

def run (parser : Parser) : Call → Answer × Parser
  | .advance => (.done, parser.advance)
  | .skipStatement => (.done, parser.skipStatement)
  | .program => parse (withRoom Parser.program) .program parser
  | .statement => parse (withRoom Parser.statement) .statement parser
  | .binding => parse (withRoom Parser.binding) .statement parser
  | .result => parse (withRoom Parser.result) .statement parser
  | .expressionStatement => parse (withRoom Parser.expressionStatement) .statement parser
  | .block => parse (withRoom Parser.block) (fun tree => .statement (.block tree)) parser
  | .identifier => parse Parser.identifier (fun name => .expression (.identifier name)) parser
  | .integer => parse Parser.integer .expression parser
  | .boolean => parse Parser.boolean .expression parser
  | .unary => parse (withRoom Parser.unary) .expression parser
  | .group => parse (withRoom Parser.group) .expression parser
  | .conditional => parse (withRoom Parser.conditional) .expression parser
  | .function => parse (withRoom Parser.function) .expression parser
  | .parameters =>
      parseEach Parser.parameters (fun name => .expression (.identifier name)) parser
  | .arguments => parseEach (withRoom Parser.arguments) .expression parser
  | .expression strength => parse (Parser.expression strength) .expression parser
  | .binary left => parse (withRoom fun nested => Parser.binary nested left) .expression parser
  | .call callee => parse (withRoom fun nested => Parser.call nested callee) .expression parser
  | .expect kind =>
      (.truth (Rule.expect kind parser).1.isSome, (Rule.expect kind parser).2)
  | .currentIs kind => (.truth (parser.currentIs kind), parser)
  | .peekIs kind => (.truth (parser.peekIs kind), parser)
  | .currentPrecedence => (.strength parser.currentPrecedence, parser)
  | .peekPrecedence => (.strength parser.peekPrecedence, parser)
  | .errors => (.texts parser.errors, parser)
  | .unexpected kind => (.done, parser.report (.unexpected kind parser.peekToken.kind))
  | .stray token => (.done, parser.report (.ofStray token))
  | .remark text => (.done, parser.report (.remark text))

end Call

/-- The parser after calls in a row. -/
def afterCalls (parser : Parser) (calls : List Call) : Parser :=
  calls.foldl (fun parser call => (call.run parser).2) parser

end MonkeyFront.Parser
