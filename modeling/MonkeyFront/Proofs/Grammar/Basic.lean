import MonkeyFront.Parser.Literal
import MonkeyFront.Precedence

/-!
# The grammar

Which tokens stand for which tree, said without the parser. Expressions form strata, and an operator
of a binary stratum has its own stratum to the left and a tighter one to the right. A derivation also
counts the nesting of expressions: how many of them lie inside each other, where left operands and
callees do not count as lying inside.
-/

namespace MonkeyFront.Grammar

/-- The strata of expressions, loosest first. -/
inductive Stratum where
  | equality | comparison | sum | product | unary | call
  deriving DecidableEq, Repr

namespace Stratum

/-- The binary operators of a stratum. -/
def operators : Stratum → List Sign
  | .equality => [.equal, .notEqual]
  | .comparison => [.less, .greater]
  | .sum => [.plus, .minus]
  | .product => [.asterisk, .slash]
  | .unary | .call => []

/-- The next tighter stratum; calls are as tight as it gets. -/
def next : Stratum → Stratum
  | .equality => .comparison
  | .comparison => .sum
  | .sum => .product
  | .product => .unary
  | .unary | .call => .call

end Stratum

/-- Names that go on a list, each after a comma. -/
inductive OtherNames : List Identifier → List Token → Prop
  | none : OtherNames [] []
  | more {comma name : Token} {names : List Identifier} {tokens : List Token}
      (hc : comma.kind = .sign .comma) (hn : name.kind = .ident)
      (others : OtherNames names tokens) :
      OtherNames (⟨name, name.literal⟩ :: names) (comma :: name :: tokens)

/-- Names parted by commas. -/
inductive Names : List Identifier → List Token → Prop
  | none : Names [] []
  | some {name : Token} {names : List Identifier} {tokens : List Token} (hn : name.kind = .ident)
      (others : OtherNames names tokens) :
      Names (⟨name, name.literal⟩ :: names) (name :: tokens)

/-- A part of a program together with the tree that it stands for. -/
inductive Phrase where
  | expression (stratum : Stratum) (tree : Expression)
  /-- Expressions parted by commas. -/
  | arguments (trees : List Expression)
  /-- Expressions that go on a list, each after a comma. -/
  | otherArguments (trees : List Expression)
  | block (tree : Block)
  /-- A statement, and whether it ends with a semicolon. -/
  | statement (closed : Bool) (tree : Statement)
  | statements (trees : List Statement)

/-- `Derives phrase nesting tokens`: the tokens derive the phrase, and the expressions in it are
nested as deep as the number says. -/
inductive Derives : Phrase → Nat → List Token → Prop
  | name {token : Token} (h : token.kind = .ident) :
      Derives (.expression .call (.identifier ⟨token, token.literal⟩)) 1 [token]
  | integer {token : Token} (h : token.kind = .int) :
      Derives (.expression .call (.integer token (decimalValue token.literal.toList))) 1 [token]
  | trueWord {token : Token} (h : token.kind = .keyword .trueWord) :
      Derives (.expression .call (.boolean token true)) 1 [token]
  | falseWord {token : Token} (h : token.kind = .keyword .falseWord) :
      Derives (.expression .call (.boolean token false)) 1 [token]
  | group {opening closing : Token} {tree : Expression} {nesting : Nat} {tokens : List Token}
      (ho : opening.kind = .sign .leftParen)
      (inside : Derives (.expression .equality tree) nesting tokens)
      (hc : closing.kind = .sign .rightParen) :
      Derives (.expression .call tree) (nesting + 1) (opening :: tokens ++ [closing])
  | conditional {word opening closing : Token} {condition : Expression} {consequence : Block}
      {m n : Nat} {tokens more : List Token} (hw : word.kind = .keyword .ifWord)
      (ho : opening.kind = .sign .leftParen)
      (test : Derives (.expression .equality condition) m tokens)
      (hc : closing.kind = .sign .rightParen) (body : Derives (.block consequence) n more) :
      Derives (.expression .call (.conditional word condition consequence none))
        (max (m + 1) (n + 1)) (word :: opening :: tokens ++ closing :: more)
  | alternative {word opening closing elseWord : Token} {condition : Expression}
      {consequence alternative : Block} {m n k : Nat} {tokens more others : List Token}
      (hw : word.kind = .keyword .ifWord) (ho : opening.kind = .sign .leftParen)
      (test : Derives (.expression .equality condition) m tokens)
      (hc : closing.kind = .sign .rightParen) (body : Derives (.block consequence) n more)
      (he : elseWord.kind = .keyword .elseWord) (rest : Derives (.block alternative) k others) :
      Derives (.expression .call (.conditional word condition consequence (some alternative)))
        (max (max (m + 1) (n + 1)) (k + 1))
        (word :: opening :: tokens ++ closing :: more ++ elseWord :: others)
  | function {word opening closing : Token} {parameters : List Identifier} {body : Block} {n : Nat}
      {tokens more : List Token} (hw : word.kind = .keyword .fnWord)
      (ho : opening.kind = .sign .leftParen) (names : Names parameters tokens)
      (hc : closing.kind = .sign .rightParen) (inside : Derives (.block body) n more) :
      Derives (.expression .call (.function word parameters body)) (n + 1)
        (word :: opening :: tokens ++ closing :: more)
  | call {opening closing : Token} {callee : Expression} {arguments : List Expression} {m n : Nat}
      {tokens more : List Token} (head : Derives (.expression .call callee) m tokens)
      (ho : opening.kind = .sign .leftParen) (inside : Derives (.arguments arguments) n more)
      (hc : closing.kind = .sign .rightParen) :
      Derives (.expression .call (.call opening callee arguments)) (max m (n + 1))
        (tokens ++ opening :: more ++ [closing])
  | unary {operator : Token} {tree : Expression} {nesting : Nat} {tokens : List Token}
      (ho : operator.kind = .sign .bang ∨ operator.kind = .sign .minus)
      (operand : Derives (.expression .unary tree) nesting tokens) :
      Derives (.expression .unary (.unary operator operator.literal tree)) (nesting + 1)
        (operator :: tokens)
  | binary {stratum : Stratum} {operator : Token} {sign : Sign} {left right : Expression} {m n : Nat}
      {tokens more : List Token} (first : Derives (.expression stratum left) m tokens)
      (ho : operator.kind = .sign sign) (hs : sign ∈ stratum.operators)
      (second : Derives (.expression stratum.next right) n more) :
      Derives (.expression stratum (.binary operator left operator.literal right)) (max m (n + 1))
        (tokens ++ operator :: more)
  | tighter {stratum : Stratum} {tree : Expression} {nesting : Nat} {tokens : List Token}
      (h : Derives (.expression stratum.next tree) nesting tokens) :
      Derives (.expression stratum tree) nesting tokens
  | noArguments : Derives (.arguments []) 0 []
  | arguments {first : Expression} {others : List Expression} {m n : Nat}
      {tokens more : List Token} (head : Derives (.expression .equality first) m tokens)
      (tail : Derives (.otherArguments others) n more) :
      Derives (.arguments (first :: others)) (max m n) (tokens ++ more)
  | noOtherArguments : Derives (.otherArguments []) 0 []
  | otherArguments {comma : Token} {first : Expression} {others : List Expression} {m n : Nat}
      {tokens more : List Token} (hc : comma.kind = .sign .comma)
      (head : Derives (.expression .equality first) m tokens)
      (tail : Derives (.otherArguments others) n more) :
      Derives (.otherArguments (first :: others)) (max m n) (comma :: tokens ++ more)
  | block {opening closing : Token} {trees : List Statement} {nesting : Nat} {tokens : List Token}
      (ho : opening.kind = .sign .leftBrace) (inside : Derives (.statements trees) nesting tokens)
      (hc : closing.kind = .sign .rightBrace) :
      Derives (.block (.mk opening trees)) nesting (opening :: tokens ++ [closing])
  | binding {word name assign : Token} {value : Expression} {nesting : Nat} {tokens : List Token}
      (hw : word.kind = .keyword .letWord) (hn : name.kind = .ident)
      (ha : assign.kind = .sign .assign)
      (right : Derives (.expression .equality value) nesting tokens) :
      Derives (.statement false (.binding word ⟨name, name.literal⟩ (some value))) nesting
        (word :: name :: assign :: tokens)
  | result {word : Token} {value : Expression} {nesting : Nat} {tokens : List Token}
      (hw : word.kind = .keyword .returnWord)
      (right : Derives (.expression .equality value) nesting tokens) :
      Derives (.statement false (.result word (some value))) nesting (word :: tokens)
  | bare {first : Token} {value : Expression} {nesting : Nat} {tokens : List Token}
      (h : Derives (.expression .equality value) nesting (first :: tokens)) :
      Derives (.statement false (.expression first (some value))) nesting (first :: tokens)
  | closed {semicolon : Token} {tree : Statement} {nesting : Nat} {tokens : List Token}
      (h : Derives (.statement false tree) nesting tokens)
      (hs : semicolon.kind = .sign .semicolon) :
      Derives (.statement true tree) nesting (tokens ++ [semicolon])
  | noStatements : Derives (.statements []) 0 []
  | statements {closed : Bool} {first : Statement} {others : List Statement} {m n : Nat}
      {tokens more : List Token} (head : Derives (.statement closed first) m tokens)
      (tail : Derives (.statements others) n more)
      (apart : closed = true ∨
        ∀ token ∈ more.head?, token.kind ≠ .sign .leftParen ∧ token.kind ≠ .sign .minus) :
      Derives (.statements (first :: others)) (max m n) (tokens ++ more)

end MonkeyFront.Grammar
