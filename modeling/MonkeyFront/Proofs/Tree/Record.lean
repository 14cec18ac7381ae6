import MonkeyFront.Proofs.Tree.WellFormed
import MonkeyFront.Tree.Equality
import MonkeyFront.Tree.Record

/-!
# Records tell trees apart

A record keeps of each token only the literal. The literal of a scanned token tells its kind, so
trees of such tokens are equal if their records are, also where the fields of a record count in any
order.
-/

namespace MonkeyFront

/-! ## Equality of data -/

namespace JsonValue

/-- The number that a value counts as. A truth value counts as 1 or 0. -/
def number? : JsonValue → Option Int
  | bool value => some value.toNat
  | int value => some value
  | _ => none

mutual

/-- Whether two values are the same data. The fields of an object count in any order. -/
def agrees : JsonValue → JsonValue → Bool
  | null, null => true
  | string a, string b => a == b
  | array a, array b => agreesEach a b
  | object a, object b => a.length == b.length && fieldsAgree a b
  | a, b => a.number?.isSome && a.number? == b.number?

@[simp] def agreesEach : List JsonValue → List JsonValue → Bool
  | [], [] => true
  | a :: c, b :: d => a.agrees b && agreesEach c d
  | _, _ => false

/-- Whether each of some fields is among others. -/
def fieldsAgree : List (String × JsonValue) → List (String × JsonValue) → Bool
  | [], _ => true
  | (key, a) :: others, fields =>
    (fields.lookup key).any a.agrees && fieldsAgree others fields

end

@[simp] theorem agrees_string (a b : String) : (string a).agrees (string b) = true ↔ a = b := by
  simp [agrees]

@[simp] theorem agrees_int (a b : Int) : (int a).agrees (int b) = true ↔ a = b := by
  simp [agrees, number?]

@[simp] theorem agrees_bool (a b : Bool) : (bool a).agrees (bool b) = true ↔ a = b := by
  cases a <;> cases b <;> decide

@[simp] theorem agrees_array (a b : List JsonValue) :
    (array a).agrees (array b) = agreesEach a b := by
  rw [agrees]

@[simp] theorem agrees_nil : (object []).agrees (object []) = true := by
  simp [agrees, fieldsAgree]

/-- Objects that start with the same field agree if that field does and the others do. -/
@[simp] theorem object_agrees_cons {key : String} {a b : JsonValue}
    {parts others : List (String × JsonValue)} (h : ∀ part ∈ parts, part.1 ≠ key) :
    (object ((key, a) :: parts)).agrees (object ((key, b) :: others)) = true ↔
      a.agrees b = true ∧ (object parts).agrees (object others) = true := by
  have hskip : fieldsAgree parts ((key, b) :: others) = fieldsAgree parts others := by
    clear a
    induction parts with
    | nil => rfl
    | cons part parts ih =>
        have hkey : (part.1 == key) = false := beq_false_of_ne (h part List.mem_cons_self)
        have hparts := ih fun part hp => h part (List.mem_cons_of_mem _ hp)
        simp only [fieldsAgree, List.lookup_cons, hkey, hparts]
  simp [agrees, fieldsAgree, hskip, and_left_comm]

end JsonValue

/-! ## Records -/

theorem kind_eq_of_agrees {kind other : String} {s t : Token}
    {parts others : List (String × JsonValue)}
    (h : (nodeRecord kind s parts).agrees (nodeRecord other t others) = true) : kind = other := by
  simp only [nodeRecord, JsonValue.agrees, JsonValue.fieldsAgree, List.lookup_cons_self,
    Option.any_some, Bool.and_eq_true, beq_iff_eq] at h
  exact h.2.1

@[simp] theorem nodeRecord_agrees {kind : String} {s t : Token}
    {parts others : List (String × JsonValue)}
    (h : ∀ part ∈ parts, part.1 ≠ "kind" ∧ part.1 ≠ "token") :
    (nodeRecord kind s parts).agrees (nodeRecord kind t others) = true ↔
      s.literal = t.literal ∧ (JsonValue.object parts).agrees (.object others) = true := by
  have hkind : ∀ part ∈ ("token", JsonValue.string s.literal) :: parts, part.1 ≠ "kind" :=
    List.forall_mem_cons.mpr ⟨by simp, fun part hp => (h part hp).1⟩
  have htoken : ∀ part ∈ parts, part.1 ≠ "token" := fun part hp => (h part hp).2
  rw [nodeRecord, nodeRecord, JsonValue.object_agrees_cons hkind,
    JsonValue.object_agrees_cons htoken]
  simp [JsonValue.agrees]

/-- Every token in a tree stands in a source as its literal. -/
def Node.Spelled (root : Node) : Prop :=
  root.Everywhere fun node => ∀ token ∈ node.token?, token.Valid

theorem Node.Spelled.literal_inj {a b : Node} (ha : a.Spelled) (hb : b.Spelled) {s t : Token}
    (hs : a.token? = some s) (ht : b.token? = some t) : s.literal = t.literal ↔ s = t :=
  (ha.own s hs).literal_inj (hb.own t ht)

theorem Identifier.agrees_iff {a b : Identifier} (ha : Node.Spelled (.expression (.identifier a)))
    (hb : Node.Spelled (.expression (.identifier b))) :
    a.record.agrees b.record = true ↔ a = b := by
  have htoken : a.token.literal = b.token.literal ↔ a.token = b.token := ha.literal_inj hb rfl rfl
  cases a
  cases b
  simpa [Identifier.record] using fun _ => htoken

theorem Identifier.agreesEach_iff (a b : List Identifier)
    (ha : ∀ name ∈ a, Node.Spelled (.expression (.identifier name)))
    (hb : ∀ name ∈ b, Node.Spelled (.expression (.identifier name))) :
    JsonValue.agreesEach (a.map Identifier.record) (b.map Identifier.record) = true ↔ a = b := by
  induction a generalizing b with
  | nil => cases b <;> simp
  | cons x a ih =>
      cases b with
      | nil => simp
      | cons y b =>
          have hfirst := Identifier.agrees_iff (ha x List.mem_cons_self) (hb y List.mem_cons_self)
          have hothers := ih b (fun name h => ha name (List.mem_cons_of_mem _ h))
            (fun name h => hb name (List.mem_cons_of_mem _ h))
          simp [hfirst, hothers]

/-! ## Parts that may be missing -/

/-- The record of a part, or null if the part is missing. -/
def optionalRecord {α : Type} (record : α → JsonValue) : Option α → JsonValue
  | none => .null
  | some part => record part

section Optional

variable {α : Type} {record : α → JsonValue}
  (hr : ∀ part, ∃ fields, record part = .object fields) {b : Option α}

include hr

theorem none_agrees_iff :
    (optionalRecord record none).agrees (optionalRecord record b) = true ↔ none = b := by
  cases b with
  | none => simp [optionalRecord, JsonValue.agrees]
  | some y =>
      obtain ⟨fields, hy⟩ := hr y
      simp [optionalRecord, hy, JsonValue.agrees, JsonValue.number?]

theorem some_agrees_iff {x : α}
    (h : ∀ y, b = some y → ((record x).agrees (record y) = true ↔ x = y)) :
    (optionalRecord record (some x)).agrees (optionalRecord record b) = true ↔ some x = b := by
  cases b with
  | none =>
      obtain ⟨fields, hx⟩ := hr x
      simp [optionalRecord, hx, JsonValue.agrees, JsonValue.number?]
  | some y => simp [optionalRecord, h y rfl]

end Optional

theorem Expression.record_conditional (token : Token) (condition : Expression)
    (consequence : Block) (alternative : Option Block) :
    (Expression.conditional token condition consequence alternative).record =
      nodeRecord "IfExpression" token
        [("condition", condition.record), ("consequence", consequence.record),
          ("alternative", optionalRecord Block.record alternative)] := by
  cases alternative <;> rfl

theorem Statement.record_binding (token : Token) (name : Identifier) (value : Option Expression) :
    (Statement.binding token name value).record =
      nodeRecord "LetStatement" token
        [("name", name.record), ("value", optionalRecord Expression.record value)] := by
  cases value <;> rfl

theorem Statement.record_result (token : Token) (value : Option Expression) :
    (Statement.result token value).record =
      nodeRecord "ReturnStatement" token
        [("return_value", optionalRecord Expression.record value)] := by
  cases value <;> rfl

theorem Statement.record_expression (token : Token) (value : Option Expression) :
    (Statement.expression token value).record =
      nodeRecord "ExpressionStatement" token
        [("expression", optionalRecord Expression.record value)] := by
  cases value <;> rfl

theorem Block.record_eq (body : Block) :
    body.record = nodeRecord "BlockStatement" body.token
      [("statements", .array (Statement.recordEach body.statements))] := by
  cases body
  rfl

/-! ## Kinds of nodes -/

/-- What the record of an expression says it is. -/
def Expression.kindName : Expression → String
  | .identifier _ => "Identifier"
  | .integer .. => "IntegerLiteral"
  | .boolean .. => "BooleanLiteral"
  | .unary .. => "PrefixExpression"
  | .binary .. => "InfixExpression"
  | .conditional .. => "IfExpression"
  | .function .. => "FunctionLiteral"
  | .call .. => "CallExpression"

/-- What the record of a statement says it is. -/
def Statement.kindName : Statement → String
  | .binding .. => "LetStatement"
  | .result .. => "ReturnStatement"
  | .expression .. => "ExpressionStatement"
  | .block _ => "BlockStatement"

theorem Expression.exists_record (tree : Expression) :
    ∃ parts, tree.record = nodeRecord tree.kindName tree.token parts := by
  cases tree with
  | conditional => exact ⟨_, Expression.record_conditional ..⟩
  | _ => exact ⟨_, rfl⟩

theorem Statement.exists_record (tree : Statement) :
    ∃ parts, tree.record = nodeRecord tree.kindName tree.token parts := by
  cases tree with
  | binding => exact ⟨_, Statement.record_binding ..⟩
  | result => exact ⟨_, Statement.record_result ..⟩
  | expression => exact ⟨_, Statement.record_expression ..⟩
  | block body => exact ⟨_, body.record_eq⟩

/-- Expressions of two kinds have records that do not agree. -/
theorem Expression.agrees_iff_of_kindName {a b : Expression} (h : a.kindName ≠ b.kindName) :
    a.record.agrees b.record = true ↔ a = b := by
  obtain ⟨parts, ha⟩ := a.exists_record
  obtain ⟨others, hb⟩ := b.exists_record
  rw [ha, hb]
  exact iff_of_false (mt kind_eq_of_agrees h) (mt (congrArg kindName) h)

theorem Statement.agrees_iff_of_kindName {a b : Statement} (h : a.kindName ≠ b.kindName) :
    a.record.agrees b.record = true ↔ a = b := by
  obtain ⟨parts, ha⟩ := a.exists_record
  obtain ⟨others, hb⟩ := b.exists_record
  rw [ha, hb]
  exact iff_of_false (mt kind_eq_of_agrees h) (mt (congrArg kindName) h)

/-! ## Trees -/

mutual

theorem Expression.agrees_iff (a b : Expression) (ha : Node.Spelled (.expression a))
    (hb : Node.Spelled (.expression b)) : a.record.agrees b.record = true ↔ a = b := by
  have htoken : a.token.literal = b.token.literal ↔ a.token = b.token := ha.literal_inj hb rfl rfl
  cases a with
  | identifier x =>
      cases b with
      | identifier y =>
          rw [Expression.identifier.injEq]
          exact Identifier.agrees_iff ha hb
      | _ => exact Expression.agrees_iff_of_kindName (by simp [Expression.kindName])
  | integer s x =>
      cases b with
      | integer t y => simp_all [Expression.record, Expression.token]
      | _ => exact Expression.agrees_iff_of_kindName (by simp [Expression.kindName])
  | boolean s x =>
      cases b with
      | boolean t y => simp_all [Expression.record, Expression.token]
      | _ => exact Expression.agrees_iff_of_kindName (by simp [Expression.kindName])
  | unary s o x =>
      cases b with
      | unary t p y =>
          have hx := Expression.agrees_iff x y (ha.child List.mem_cons_self)
            (hb.child List.mem_cons_self)
          simp_all [Expression.record, Expression.token]
      | _ => exact Expression.agrees_iff_of_kindName (by simp [Expression.kindName])
  | binary s x o u =>
      cases b with
      | binary t y p v =>
          have hx := Expression.agrees_iff x y (ha.child List.mem_cons_self)
            (hb.child List.mem_cons_self)
          have hu := Expression.agrees_iff u v
            (ha.child (List.mem_cons_of_mem _ List.mem_cons_self))
            (hb.child (List.mem_cons_of_mem _ List.mem_cons_self))
          simp_all [Expression.record, Expression.token]
      | _ => exact Expression.agrees_iff_of_kindName (by simp [Expression.kindName])
  | conditional s x u p =>
      cases b with
      | conditional t y v q =>
          have hx := Expression.agrees_iff x y (ha.child List.mem_cons_self)
            (hb.child List.mem_cons_self)
          have hu := Block.agrees_iff u v (ha.child (List.mem_cons_of_mem _ List.mem_cons_self))
            (hb.child (List.mem_cons_of_mem _ List.mem_cons_self))
          have hp := Block.optionalAgrees_iff p q
            (fun body h => ha.child (by simp [Node.children, h]))
            (fun body h => hb.child (by simp [Node.children, h]))
          simp_all [Expression.record_conditional, Expression.token]
      | _ => exact Expression.agrees_iff_of_kindName (by simp [Expression.kindName])
  | function s x u =>
      cases b with
      | function t y v =>
          have hx := Identifier.agreesEach_iff x y
            (fun name h => ha.child (List.mem_append_left _ (List.mem_map_of_mem h)))
            (fun name h => hb.child (List.mem_append_left _ (List.mem_map_of_mem h)))
          have hu := Block.agrees_iff u v
            (ha.child (List.mem_append_right _ List.mem_cons_self))
            (hb.child (List.mem_append_right _ List.mem_cons_self))
          simp_all [Expression.record, Expression.token]
      | _ => exact Expression.agrees_iff_of_kindName (by simp [Expression.kindName])
  | call s x u =>
      cases b with
      | call t y v =>
          have hx := Expression.agrees_iff x y (ha.child List.mem_cons_self)
            (hb.child List.mem_cons_self)
          have hu := Expression.agreesEach_iff u v
            (fun tree h => ha.child (List.mem_cons_of_mem _ (List.mem_map_of_mem h)))
            (fun tree h => hb.child (List.mem_cons_of_mem _ (List.mem_map_of_mem h)))
          simp_all [Expression.record, Expression.token]
      | _ => exact Expression.agrees_iff_of_kindName (by simp [Expression.kindName])
termination_by structural a

theorem Expression.agreesEach_iff (a b : List Expression)
    (ha : ∀ tree ∈ a, Node.Spelled (.expression tree))
    (hb : ∀ tree ∈ b, Node.Spelled (.expression tree)) :
    JsonValue.agreesEach (Expression.recordEach a) (Expression.recordEach b) = true ↔ a = b := by
  cases a with
  | nil => cases b <;> simp [Expression.recordEach]
  | cons x c =>
      cases b with
      | nil => simp [Expression.recordEach]
      | cons y d =>
          have hx := Expression.agrees_iff x y (ha x List.mem_cons_self) (hb y List.mem_cons_self)
          have hc := Expression.agreesEach_iff c d
            (fun tree h => ha tree (List.mem_cons_of_mem _ h))
            (fun tree h => hb tree (List.mem_cons_of_mem _ h))
          simp [Expression.recordEach, hx, hc]
termination_by structural a

theorem Expression.optionalAgrees_iff (a b : Option Expression)
    (ha : ∀ tree, a = some tree → Node.Spelled (.expression tree))
    (hb : ∀ tree, b = some tree → Node.Spelled (.expression tree)) :
    (optionalRecord Expression.record a).agrees (optionalRecord Expression.record b) = true
      ↔ a = b := by
  have hr (tree : Expression) : ∃ fields, tree.record = .object fields := by
    obtain ⟨parts, h⟩ := tree.exists_record
    exact ⟨_, h⟩
  cases a with
  | none => exact none_agrees_iff hr
  | some x => exact some_agrees_iff hr fun y hy => Expression.agrees_iff x y (ha x rfl) (hb y hy)
termination_by structural a

theorem Block.optionalAgrees_iff (a b : Option Block)
    (ha : ∀ body, a = some body → Node.Spelled (.statement (.block body)))
    (hb : ∀ body, b = some body → Node.Spelled (.statement (.block body))) :
    (optionalRecord Block.record a).agrees (optionalRecord Block.record b) = true ↔ a = b := by
  have hr (body : Block) : ∃ fields, body.record = .object fields := ⟨_, body.record_eq⟩
  cases a with
  | none => exact none_agrees_iff hr
  | some x => exact some_agrees_iff hr fun y hy => Block.agrees_iff x y (ha x rfl) (hb y hy)
termination_by structural a

theorem Block.agrees_iff (a b : Block) (ha : Node.Spelled (.statement (.block a)))
    (hb : Node.Spelled (.statement (.block b))) : a.record.agrees b.record = true ↔ a = b := by
  have htoken : a.token.literal = b.token.literal ↔ a.token = b.token := ha.literal_inj hb rfl rfl
  cases a with
  | mk s x =>
      cases b with
      | mk t y =>
          have hx := Statement.agreesEach_iff x y
            (fun tree h => ha.child (List.mem_map_of_mem h))
            (fun tree h => hb.child (List.mem_map_of_mem h))
          simp_all [Block.record, Block.token]
termination_by structural a

theorem Statement.agrees_iff (a b : Statement) (ha : Node.Spelled (.statement a))
    (hb : Node.Spelled (.statement b)) : a.record.agrees b.record = true ↔ a = b := by
  have htoken : a.token.literal = b.token.literal ↔ a.token = b.token := ha.literal_inj hb rfl rfl
  cases a with
  | binding s x p =>
      cases b with
      | binding t y q =>
          have hx : x.record.agrees y.record = true ↔ x = y :=
            Identifier.agrees_iff (ha.child List.mem_cons_self) (hb.child List.mem_cons_self)
          have hp := Expression.optionalAgrees_iff p q
            (fun tree h =>
              ha.child (List.mem_cons_of_mem _ (List.mem_map_of_mem (Option.mem_toList.mpr h))))
            (fun tree h =>
              hb.child (List.mem_cons_of_mem _ (List.mem_map_of_mem (Option.mem_toList.mpr h))))
          simp_all [Statement.record_binding, Statement.token]
      | _ => exact Statement.agrees_iff_of_kindName (by simp [Statement.kindName])
  | result s p =>
      cases b with
      | result t q =>
          have hp := Expression.optionalAgrees_iff p q
            (fun tree h => ha.child (List.mem_map_of_mem (Option.mem_toList.mpr h)))
            (fun tree h => hb.child (List.mem_map_of_mem (Option.mem_toList.mpr h)))
          simp_all [Statement.record_result, Statement.token]
      | _ => exact Statement.agrees_iff_of_kindName (by simp [Statement.kindName])
  | expression s p =>
      cases b with
      | expression t q =>
          have hp := Expression.optionalAgrees_iff p q
            (fun tree h => ha.child (List.mem_map_of_mem (Option.mem_toList.mpr h)))
            (fun tree h => hb.child (List.mem_map_of_mem (Option.mem_toList.mpr h)))
          simp_all [Statement.record_expression, Statement.token]
      | _ => exact Statement.agrees_iff_of_kindName (by simp [Statement.kindName])
  | block u =>
      cases b with
      | block v =>
          rw [Statement.block.injEq]
          exact Block.agrees_iff u v ha hb
      | _ => exact Statement.agrees_iff_of_kindName (by simp [Statement.kindName])
termination_by structural a

theorem Statement.agreesEach_iff (a b : List Statement)
    (ha : ∀ tree ∈ a, Node.Spelled (.statement tree))
    (hb : ∀ tree ∈ b, Node.Spelled (.statement tree)) :
    JsonValue.agreesEach (Statement.recordEach a) (Statement.recordEach b) = true ↔ a = b := by
  cases a with
  | nil => cases b <;> simp [Statement.recordEach]
  | cons x c =>
      cases b with
      | nil => simp [Statement.recordEach]
      | cons y d =>
          have hx := Statement.agrees_iff x y (ha x List.mem_cons_self) (hb y List.mem_cons_self)
          have hc := Statement.agreesEach_iff c d
            (fun tree h => ha tree (List.mem_cons_of_mem _ h))
            (fun tree h => hb tree (List.mem_cons_of_mem _ h))
          simp [Statement.recordEach, hx, hc]
termination_by structural a

end

theorem Program.agrees_iff {a b : Program} (ha : Node.Spelled (.program a))
    (hb : Node.Spelled (.program b)) : a.record.agrees b.record = true ↔ a = b := by
  have hstatements := Statement.agreesEach_iff a.statements b.statements
    (fun tree h => ha.child (List.mem_map_of_mem h))
    (fun tree h => hb.child (List.mem_map_of_mem h))
  cases a
  cases b
  simpa [Program.record] using hstatements

/-- Trees of scanned tokens are equal if their records are. -/
theorem Program.record_inj {a b : Program} (ha : Node.Spelled (.program a))
    (hb : Node.Spelled (.program b)) : a.record = b.record ↔ a = b := by
  refine ⟨fun h => ?_, congrArg Program.record⟩
  have hagrees : a.record.agrees b.record = true := by
    rw [h]
    exact (Program.agrees_iff hb hb).mpr rfl
  exact (Program.agrees_iff ha hb).mp hagrees

end MonkeyFront
