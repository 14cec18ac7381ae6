import MonkeyFront.Tree.Basic

/-!
# Equality of trees

Two trees are equal when they have the same shape and the same tokens. The comparison decides
equality.
-/

namespace MonkeyFront

mutual

def Expression.same : Expression → Expression → Bool
  | .identifier a, .identifier b => a == b
  | .integer s a, .integer t b => s == t && a == b
  | .boolean s a, .boolean t b => s == t && a == b
  | .unary s o a, .unary t p b => s == t && o == p && a.same b
  | .binary s a o c, .binary t b p d => s == t && o == p && a.same b && c.same d
  | .conditional s a c none, .conditional t b d none => s == t && a.same b && c.same d
  | .conditional s a c (some e), .conditional t b d (some f) =>
      s == t && a.same b && c.same d && e.same f
  | .function s a c, .function t b d => s == t && a == b && c.same d
  | .call s a c, .call t b d => s == t && a.same b && Expression.sameEach c d
  | _, _ => false

def Expression.sameEach : List Expression → List Expression → Bool
  | [], [] => true
  | a :: c, b :: d => a.same b && Expression.sameEach c d
  | _, _ => false

def Block.same : Block → Block → Bool
  | .mk s a, .mk t b => s == t && Statement.sameEach a b

def Statement.same : Statement → Statement → Bool
  | .binding s a none, .binding t b none => s == t && a == b
  | .binding s a (some c), .binding t b (some d) => s == t && a == b && c.same d
  | .result s none, .result t none => s == t
  | .result s (some a), .result t (some b) => s == t && a.same b
  | .expression s none, .expression t none => s == t
  | .expression s (some a), .expression t (some b) => s == t && a.same b
  | .block a, .block b => a.same b
  | _, _ => false

def Statement.sameEach : List Statement → List Statement → Bool
  | [], [] => true
  | a :: c, b :: d => a.same b && Statement.sameEach c d
  | _, _ => false

end

mutual

theorem Expression.same_iff (a b : Expression) : a.same b = true ↔ a = b := by
  cases a with
  | identifier x => cases b <;> simp [Expression.same]
  | integer s x => cases b <;> simp [Expression.same]
  | boolean s x => cases b <;> simp [Expression.same]
  | unary s o x =>
    cases b <;> simp [Expression.same, Expression.same_iff x, and_assoc]
  | binary s x o y =>
    cases b <;> simp [Expression.same, Expression.same_iff x, Expression.same_iff y]
    grind
  | conditional s x y z =>
    cases z with
    | none =>
      cases b with
      | conditional t u v w =>
        cases w <;> simp [Expression.same, Expression.same_iff x, Block.same_iff y, and_assoc]
      | _ => simp [Expression.same]
    | some z =>
      cases b with
      | conditional t u v w =>
        cases w <;>
          simp [Expression.same, Expression.same_iff x, Block.same_iff y, Block.same_iff z,
            and_assoc]
      | _ => simp [Expression.same]
  | function s x y =>
    cases b <;> simp [Expression.same, Block.same_iff y, and_assoc]
  | call s x y =>
    cases b <;> simp [Expression.same, Expression.same_iff x, Expression.sameEach_iff y, and_assoc]

theorem Expression.sameEach_iff (a b : List Expression) :
    Expression.sameEach a b = true ↔ a = b := by
  cases a with
  | nil => cases b <;> simp [Expression.sameEach]
  | cons x y =>
    cases b <;> simp [Expression.sameEach, Expression.same_iff x, Expression.sameEach_iff y]

theorem Block.same_iff (a b : Block) : a.same b = true ↔ a = b := by
  cases a with
  | mk s x => cases b; simp [Block.same, Statement.sameEach_iff x]

theorem Statement.same_iff (a b : Statement) : a.same b = true ↔ a = b := by
  cases a with
  | binding s x y =>
    cases y with
    | none =>
      cases b with
      | binding t u v => cases v <;> simp [Statement.same]
      | _ => simp [Statement.same]
    | some y =>
      cases b with
      | binding t u v =>
        cases v <;> simp [Statement.same, Expression.same_iff y, and_assoc]
      | _ => simp [Statement.same]
  | result s y =>
    cases y with
    | none =>
      cases b with
      | result t v => cases v <;> simp [Statement.same]
      | _ => simp [Statement.same]
    | some y =>
      cases b with
      | result t v => cases v <;> simp [Statement.same, Expression.same_iff y]
      | _ => simp [Statement.same]
  | expression s y =>
    cases y with
    | none =>
      cases b with
      | expression t v => cases v <;> simp [Statement.same]
      | _ => simp [Statement.same]
    | some y =>
      cases b with
      | expression t v => cases v <;> simp [Statement.same, Expression.same_iff y]
      | _ => simp [Statement.same]
  | block x => cases b <;> simp [Statement.same, Block.same_iff x]

theorem Statement.sameEach_iff (a b : List Statement) :
    Statement.sameEach a b = true ↔ a = b := by
  cases a with
  | nil => cases b <;> simp [Statement.sameEach]
  | cons x y =>
    cases b <;> simp [Statement.sameEach, Statement.same_iff x, Statement.sameEach_iff y]

end

instance : DecidableEq Expression := fun a b => decidable_of_iff _ (Expression.same_iff a b)

instance : DecidableEq Statement := fun a b => decidable_of_iff _ (Statement.same_iff a b)

instance : DecidableEq Block := fun a b => decidable_of_iff _ (Block.same_iff a b)

deriving instance DecidableEq for Program, Node

end MonkeyFront
