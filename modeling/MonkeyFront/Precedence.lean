import MonkeyFront.Token.Kind

/-!
# Precedence

How tightly an operator binds its operands. A call binds tightest; the lowest strength is that of a
token that is no operator.
-/

namespace MonkeyFront

/-- The binding strength of an operator, lowest first. -/
inductive Precedence where
  | lowest | equals | lessGreater | sum | product | unary | call
  deriving DecidableEq, Repr

namespace Precedence

def all : List Precedence := [.lowest, .equals, .lessGreater, .sum, .product, .unary, .call]

/-- The rank of a strength, from 1. -/
def level : Precedence → Nat
  | .lowest => 1
  | .equals => 2
  | .lessGreater => 3
  | .sum => 4
  | .product => 5
  | .unary => 6
  | .call => 7

def label : Precedence → String
  | .lowest => "LOWEST"
  | .equals => "EQUALS"
  | .lessGreater => "LESSGREATER"
  | .sum => "SUM"
  | .product => "PRODUCT"
  | .unary => "PREFIX"
  | .call => "CALL"

def ofLabel? (text : String) : Option Precedence := all.find? (·.label == text)

instance : LT Precedence := ⟨fun a b => a.level < b.level⟩

instance : DecidableLT Precedence := fun a b => inferInstanceAs (Decidable (a.level < b.level))

theorem lt_iff {a b : Precedence} : a < b ↔ a.level < b.level := Iff.rfl

end Precedence

/-- How tightly a sign binds the expression before it, if it continues an expression. -/
def Sign.precedence? : Sign → Option Precedence
  | .equal | .notEqual => some .equals
  | .less | .greater => some .lessGreater
  | .plus | .minus => some .sum
  | .slash | .asterisk => some .product
  | .leftParen => some .call
  | _ => none

/-- How tightly a token binds the expression before it, if it continues an expression. -/
def Kind.precedence? : Kind → Option Precedence
  | .sign mark => mark.precedence?
  | _ => none

/-- How tightly a token binds the expression before it; the lowest strength if it does not. -/
def Kind.precedence (kind : Kind) : Precedence := kind.precedence?.getD .lowest

end MonkeyFront
