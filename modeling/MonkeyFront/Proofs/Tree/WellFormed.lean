import Mathlib.Algebra.Group.Int.Defs
import MonkeyFront.Parser.Literal
import MonkeyFront.Proofs.Grammar.First
import MonkeyFront.Proofs.Scanner.Spelling

/-!
# Well formed trees

What can be said of each node of a tree by itself: which token it has, and how its other parts go
with the token. A tree is well formed if this holds of all nodes in it.
-/

namespace MonkeyFront

/-! ## The nodes of a tree -/

/-- The nodes directly inside a node, in the order of the source. -/
def Node.children : Node → List Node
  | .program tree => tree.statements.map .statement
  | .statement (.binding _ name value) =>
      .expression (.identifier name) :: value.toList.map .expression
  | .statement (.result _ value) => value.toList.map .expression
  | .statement (.expression _ value) => value.toList.map .expression
  | .statement (.block body) => body.statements.map .statement
  | .expression (.unary _ _ operand) => [.expression operand]
  | .expression (.binary _ left _ right) => [.expression left, .expression right]
  | .expression (.conditional _ condition consequence alternative) =>
      .expression condition :: .statement (.block consequence) ::
        alternative.toList.map fun body => .statement (.block body)
  | .expression (.function _ parameters body) =>
      parameters.map (fun name => .expression (.identifier name)) ++ [.statement (.block body)]
  | .expression (.call _ callee arguments) => .expression callee :: arguments.map .expression
  | .expression (.identifier _) | .expression (.integer ..) | .expression (.boolean ..) => []

/-- A node is in a tree: it is the tree, or it is in a child. -/
inductive Node.Contains : Node → Node → Prop
  | self (node : Node) : Contains node node
  | inside {root child node : Node} (hc : child ∈ root.children) (h : Contains child node) :
      Contains root node

/-- A property of all nodes in a tree. -/
def Node.Everywhere (P : Node → Prop) (root : Node) : Prop := ∀ node, root.Contains node → P node

namespace Node.Everywhere

variable {P Q : Node → Prop} {root : Node}

theorem intro (own : P root) (inside : ∀ child ∈ root.children, child.Everywhere P) :
    root.Everywhere P := by
  intro node h
  cases h with
  | self => exact own
  | inside hc h => exact inside _ hc node h

theorem own (h : root.Everywhere P) : P root := h root (.self root)

theorem child (h : root.Everywhere P) {child : Node} (hc : child ∈ root.children) :
    child.Everywhere P :=
  fun node hn => h node (.inside hc hn)

theorem mono (h : root.Everywhere P) (hPQ : ∀ node, P node → Q node) : root.Everywhere Q :=
  fun node hc => hPQ node (h node hc)

end Node.Everywhere

/-! ## Nodes by themselves -/

def Statement.isBlock : Statement → Bool
  | .block _ => true
  | _ => false

/-- The token that a node keeps. A program keeps none. -/
def Node.token? : Node → Option Token
  | .program _ => none
  | .statement tree => some tree.token
  | .expression tree => some tree.token

/-- The texts that a node keeps: the name of its token's kind, the token's literal, and a name or an
operator. -/
def Node.texts (node : Node) : List String :=
  (node.token?.toList.flatMap fun token => [token.kind.name, token.literal]) ++
    match node with
    | .expression (.identifier name) => [name.value]
    | .expression (.unary _ operator _) | .expression (.binary _ _ operator _) => [operator]
    | _ => []

/-- How the parts of a node go together. The nodes inside are not looked at, except that no block
stands among statements. -/
def Node.WellFormed : Node → Prop
  | .program tree => ∀ statement ∈ tree.statements, statement.isBlock = false
  | .statement (.binding token _ value) =>
      token.kind = .keyword .letWord ∧ value.isSome = true
  | .statement (.result token value) =>
      token.kind = .keyword .returnWord ∧ value.isSome = true
  | .statement (.expression token value) =>
      token.kind.startsExpression = true ∧ value.isSome = true
  | .statement (.block body) =>
      body.token.kind = .sign .leftBrace ∧
        ∀ statement ∈ body.statements, statement.isBlock = false
  | .expression (.identifier name) =>
      name.token.kind = .ident ∧ name.token.literal ≠ "" ∧
        (∀ c ∈ name.token.literal.toList, isLetter c = true) ∧
        Keyword.ofSpelling? name.token.literal = none ∧ name.value = name.token.literal
  | .expression (.integer token value) =>
      token.kind = .int ∧ token.literal ≠ "" ∧
        (∀ c ∈ token.literal.toList, isDigit c = true) ∧
        value = decimalValue token.literal.toList ∧ 0 ≤ value ∧ value ≤ 2 ^ 63 - 1
  | .expression (.boolean token value) =>
      (token.kind = .keyword .trueWord ∧ value = true) ∨
        (token.kind = .keyword .falseWord ∧ value = false)
  | .expression (.unary token operator _) =>
      operator ∈ ["!", "-"] ∧ operator = token.literal ∧ operator = token.kind.name
  | .expression (.binary token _ operator _) =>
      operator ∈ ["+", "-", "*", "/", "<", ">", "==", "!="] ∧ operator = token.literal ∧
        operator = token.kind.name
  | .expression (.conditional token ..) => token.kind = .keyword .ifWord
  | .expression (.function token ..) => token.kind = .keyword .fnWord
  | .expression (.call token ..) => token.kind = .sign .leftParen

def Text.isAscii (text : String) : Bool := text.toList.all fun c => c.toNat < 128

/-- A node with no illegal token, no end token and no text beyond ASCII. -/
structure Node.Plain (node : Node) : Prop where
  token : ∀ token ∈ node.token?, token.kind ≠ .illegal ∧ token.kind ≠ .eof
  ascii : ∀ text ∈ node.texts, Text.isAscii text = true

/-! ## Tokens that were scanned -/

theorem toNat_lt_of_word {c : Char} (h : isLetter c = true ∨ isDigit c = true) :
    c.toNat < 128 := by
  rw [isLetter_iff, isDigit_iff] at h
  omega

/-- A token that stands as its literal has no text beyond ASCII. -/
theorem Token.Valid.ascii {token : Token} (h : token.Valid) :
    Text.isAscii token.kind.name = true ∧ Text.isAscii token.literal = true := by
  cases h with
  | sign mark => cases mark <;> decide
  | @word run _ hl =>
      have hliteral : Text.isAscii (String.ofList run) = true := by
        simpa [Text.isAscii] using fun c hc => toNat_lt_of_word (.inl (hl c hc))
      refine ⟨?_, hliteral⟩
      rcases Kind.ofWord_cases (String.ofList run) with h | ⟨word, h, -⟩
      · simp only [h]
        decide
      · simp only [h]
        cases word <;> decide
  | @number run _ hd =>
      have hliteral : Text.isAscii (String.ofList run) = true := by
        simpa [Text.isAscii] using fun c hc => toNat_lt_of_word (.inr (hd c hc))
      exact ⟨show Text.isAscii Kind.int.name = true by decide, hliteral⟩

/-- The literal of an identifier is a word that is not reserved. -/
theorem Token.Valid.of_ident {token : Token} (h : token.Valid) (hk : token.kind = .ident) :
    token.literal ≠ "" ∧ (∀ c ∈ token.literal.toList, isLetter c = true) ∧
      Keyword.ofSpelling? token.literal = none := by
  cases h with
  | sign | number => cases hk
  | @word run hne hl =>
      refine ⟨by simpa using hne, by simpa using hl, ?_⟩
      simp only [Kind.ofWord] at hk
      split at hk
      · cases hk
      next hword => exact hword

/-- The literal of an operator names its kind. -/
theorem Token.Valid.of_sign {token : Token} (h : token.Valid) {mark : Sign}
    (hk : token.kind = .sign mark) :
    token.literal = mark.spelling ∧ token.kind.name = mark.spelling := by
  obtain rfl := h.eq_ofSign hk
  exact ⟨rfl, rfl⟩

/-- A well formed node is plain if its token stands as its literal. -/
theorem Node.WellFormed.plain {node : Node} (h : node.WellFormed)
    (hv : ∀ token ∈ node.token?, token.Valid) : node.Plain := by
  refine ⟨fun token ht => (hv token ht).kind_ne, ?_⟩
  have htoken : ∀ token ∈ node.token?,
      Text.isAscii token.kind.name = true ∧ Text.isAscii token.literal = true :=
    fun token ht => (hv token ht).ascii
  -- The other texts are those of the token once more.
  cases node with
  | program => simp [Node.texts, Node.token?]
  | statement tree => simpa [Node.texts, Node.token?] using htoken
  | expression tree =>
      cases tree with
      | identifier name =>
          obtain ⟨-, -, -, -, hvalue⟩ := h
          simpa [Node.texts, Node.token?, Expression.token, hvalue] using htoken
      | unary token operator operand =>
          obtain ⟨-, hoperator, -⟩ := h
          simpa [Node.texts, Node.token?, Expression.token, hoperator] using htoken
      | binary token left operator right =>
          obtain ⟨-, hoperator, -⟩ := h
          simpa [Node.texts, Node.token?, Expression.token, hoperator] using htoken
      | _ => simpa [Node.texts, Node.token?, Expression.token] using htoken

end MonkeyFront
