import MonkeyFront.Proofs.Parser.Run

/-!
# Runs side by side

Two parsers run alike as far as the tokens before them agree. A coupling says how far that is: the
two parsers are coupled up to some token, where an expression may still be asked for, and no rule
that goes on goes beyond it. The rules are made of a few moves, so a coupling that these moves keep
is kept by every rule.
-/

namespace MonkeyFront

/-- Whether a token of this kind closes a statement or a block. -/
def Kind.closes : Kind → Bool
  | .sign .semicolon | .sign .rightBrace => true
  | _ => false

/-- Whether an expression has to start after a token of this kind. -/
def Kind.awaitsExpression : Kind → Bool
  | .keyword .returnWord => true
  | .sign mark => mark ∈ [.assign, .bang, .minus, .plus, .asterisk, .slash, .less, .greater, .equal,
      .notEqual, .leftParen, .comma]
  | _ => false

/-- An operator closes nothing, and an expression has to start after it. -/
theorem Kind.operator_of_precedence {kind : Kind} {strength : Precedence}
    (h : strength < kind.precedence) : kind.closes = false ∧ kind.awaitsExpression = true := by
  have hlowest : ¬ strength.level < Precedence.lowest.level := by cases strength <;> decide
  rw [Precedence.lt_iff] at h
  cases kind with
  | sign mark =>
      cases mark
      case comma | semicolon | assign | bang | rightParen | leftBrace | rightBrace =>
        exact absurd h hlowest
      all_goals exact ⟨rfl, rfl⟩
  | _ => exact absurd h hlowest

namespace Parser

open Rule

/-! ## Two outcomes -/

/-- Both runs yield the same value, or both gave up, and the parsers are related accordingly. -/
inductive Alike {α : Type} (Q F : Parser → Parser → Prop) :
    Option α × Parser → Option α × Parser → Prop
  | yields {value : α} {p q : Parser} (h : Q p q) : Alike Q F (some value, p) (some value, q)
  | gaveUp {p q : Parser} (h : F p q) : Alike Q F (none, p) (none, q)

namespace Alike

variable {α β : Type} {P Q F : Parser → Parser → Prop} {p q after : Parser} {value : α}
  {run other : Option α × Parser}

theorem of_some (h : Alike Q F run other) (hr : run = (some value, after)) :
    ∃ last, other = (some value, last) ∧ Q after last := by
  cases h with
  | yields h => cases hr; exact ⟨_, rfl, h⟩
  | gaveUp => cases hr

theorem of_none (h : Alike Q F run other) (hr : run = (none, after)) :
    ∃ last, other = (none, last) ∧ F after last := by
  cases h with
  | yields => cases hr
  | gaveUp h => cases hr; exact ⟨_, rfl, h⟩

/-- Outcomes stay alike when the parsers in them are changed. -/
theorem map {R G : Parser → Parser → Prop} {change : Parser → Parser} (h : Alike Q F run other)
    (hq : ∀ {p q}, Q p q → R (change p) (change q))
    (hf : ∀ {p q}, F p q → G (change p) (change q)) :
    Alike R G (run.1, change run.2) (other.1, change other.2) := by
  cases h with
  | yields h => exact .yields (hq h)
  | gaveUp h => exact .gaveUp (hf h)

theorem bind {rule : Rule α} {more : α → Rule β} (h : Alike P F (rule p) (rule q))
    (hm : ∀ {value p q}, P p q → Alike Q F (more value p) (more value q)) :
    Alike Q F ((rule >>= more) p) ((rule >>= more) q) := by
  change Alike Q F (Rule.bind rule more p) (Rule.bind rule more q)
  unfold Rule.bind
  generalize rule p = run at h ⊢
  generalize rule q = other at h ⊢
  cases h with
  | yields h => exact hm h
  | gaveUp h => exact .gaveUp h

theorem onGivingUp {G : Parser → Parser → Prop} {change : Parser → Parser} {rule : Rule α}
    (h : Alike Q F (rule p) (rule q)) (hc : ∀ {p q}, F p q → G (change p) (change q)) :
    Alike Q G (onGivingUp change rule p) (onGivingUp change rule q) := by
  unfold Rule.onGivingUp
  generalize rule p = run at h ⊢
  generalize rule q = other at h ⊢
  cases h with
  | yields h => exact .yields h
  | gaveUp h => exact .gaveUp (hc h)

section Loops

variable {goOn : Parser → Bool} (hgo : ∀ {p q}, P p q → goOn p = goOn q)
include hgo

theorem many {item : Rule α} {takes : Takes goOn item}
    (hi : ∀ {p q}, P p q → goOn p = true → Alike P F (item p) (item q)) (h : P p q) :
    Alike P F (many goOn item takes p) (many goOn item takes q) := by
  fun_induction Rule.many goOn item takes p generalizing q with
  | case1 p hg after hr =>
      obtain ⟨last, ho, hf⟩ := (hi h hg).of_none hr
      rw [many_run (hgo h ▸ hg), bind_of_none ho]
      exact .gaveUp hf
  | case2 p hg value middle hr after hl ih =>
      obtain ⟨other, ho, hp⟩ := (hi h hg).of_some hr
      obtain ⟨last, hm, hf⟩ := (ih hp).of_none hl
      rw [many_run (hgo h ▸ hg), bind_of_some ho, bind_of_none hm]
      exact .gaveUp hf
  | case3 p hg value middle hr values after hl ih =>
      obtain ⟨other, ho, hp⟩ := (hi h hg).of_some hr
      obtain ⟨last, hm, hq⟩ := (ih hp).of_some hl
      rw [many_more (hgo h ▸ hg) ho hm]
      exact .yields hq
  | case4 p hg =>
      rw [many_stop (by rw [← hgo h]; simpa using hg)]
      exact .yields h

theorem fold {step : α → Rule α} {takes : ∀ value, Takes goOn (step value)}
    (hs : ∀ {value p q}, P p q → goOn p = true → Alike P F (step value p) (step value q))
    (h : P p q) : Alike P F (fold goOn step takes value p) (fold goOn step takes value q) := by
  fun_induction Rule.fold goOn step takes value p generalizing q with
  | case1 value p hg after hr =>
      obtain ⟨last, ho, hf⟩ := (hs h hg).of_none hr
      have hrun : Rule.fold goOn step takes value q = (none, last) :=
        (fold_run (hgo h ▸ hg)).trans (bind_of_none ho _)
      rw [hrun]
      exact .gaveUp hf
  | case2 value p hg next middle hr ih =>
      obtain ⟨other, ho, hp⟩ := (hs h hg).of_some hr
      have hrun : Rule.fold goOn step takes value q = Rule.fold goOn step takes next other :=
        (fold_run (hgo h ▸ hg)).trans (bind_of_some ho _)
      rw [hrun]
      exact ih hp
  | case3 value p hg =>
      rw [fold_stop (by rw [← hgo h]; simpa using hg)]
      exact .yields h

end Loops

end Alike

/-! ## Skipping -/

/-- Whether skipping to the end of a statement ends here. -/
def endsStatement (parser : Parser) : Bool :=
  parser.currentIs (.sign .semicolon) || parser.currentIs .eof || parser.peekIs (.sign .rightBrace)

theorem skipStatement_run (parser : Parser) :
    parser.skipStatement =
      if parser.endsStatement then parser else parser.advance.skipStatement := by
  have hrest : parser.upcoming.tail.head?.map (·.kind) = some (.sign .rightBrace) ↔
      parser.peekIs (.sign .rightBrace) = true := by
    rw [peekIs, peekToken, beq_iff_eq]
    rcases parser.upcoming with _ | ⟨first, _ | ⟨second, others⟩⟩ <;> simp [Token.eof, Lexeme.kind]
  cases hu : parser.upcoming with
  | nil =>
      have hend : parser.endsStatement = true := by
        simp [endsStatement, currentIs, currentToken, hu, Token.eof]
      rw [if_pos hend]
      unfold skipStatement
      rw [hu, fromStatementEnd, ← hu]
  | cons first others =>
      have hcur : parser.currentToken = first.token := by rw [currentToken, hu]
      rw [hu, List.tail_cons] at hrest
      have hends : parser.endsStatement = true ↔ first.kind = .sign .semicolon ∨ first.kind = .eof ∨
          others.head?.map (·.kind) = some (.sign .rightBrace) := by
        rw [hrest, endsStatement, Bool.or_eq_true, Bool.or_eq_true, currentIs_iff, currentIs_iff,
          hcur, or_assoc]
        rfl
      unfold skipStatement
      rw [hu, fromStatementEnd]
      by_cases he : parser.endsStatement = true
      · rw [if_pos he, if_pos (hends.mp he), ← hu]
      · rw [if_neg he, if_neg (mt hends.mpr he)]
        simp [Parser.advance, hu]

/-- Two parsers skip to the end of a statement in step if they always end at the same time. -/
theorem skipStatement_related {R : Parser → Parser → Prop}
    (hends : ∀ {p q}, R p q → p.endsStatement = q.endsStatement)
    (hnext : ∀ {p q}, R p q → p.endsStatement = false → R p.advance q.advance)
    {p q : Parser} (h : R p q) : R p.skipStatement q.skipStatement := by
  induction hl : p.upcoming.length generalizing p q with
  | zero =>
      have hend : p.endsStatement = true := by
        simp [endsStatement, currentIs, currentToken, List.eq_nil_of_length_eq_zero hl, Token.eof]
      rw [skipStatement_run p, skipStatement_run q, ← hends h, if_pos hend, if_pos hend]
      exact h
  | succ length ih =>
      rw [skipStatement_run p, skipStatement_run q, ← hends h]
      cases hend : p.endsStatement with
      | true => exact h
      | false => exact ih (hnext h hend) (by simp [Parser.advance, hl])

/-! ## Couplings -/

theorem operator_of_bindsTighter {strength : Precedence} {parser : Parser}
    (h : parser.bindsTighter strength = true) :
    parser.peekToken.kind.closes = false ∧
      parser.advance.currentToken.kind.awaitsExpression = true := by
  rw [currentToken_advance]
  exact Kind.operator_of_precedence (of_decide_eq_true h)

/-- How two parsers run alike up to some token: `W` relates them up to that token, `B` before it,
and `F` where both gave up. The token closes a statement or a block, so that a parser on any other
token is before it. -/
structure Coupling (W B F : Parser → Parser → Prop) : Prop where
  near : ∀ {p q}, B p q → W p q
  current : ∀ {p q}, W p q → p.currentToken = q.currentToken
  peek : ∀ {p q}, B p q → p.peekToken = q.peekToken
  before : ∀ {p q}, W p q → p.currentToken.kind.closes = false → B p q
  advance : ∀ {p q}, B p q → p.peekToken.kind.closes = false → B p.advance q.advance
  next : ∀ {p q}, B p q → p.currentToken.kind.awaitsExpression = true → W p.advance q.advance
  close : ∀ {p q}, B p q → p.peekIs (.sign .semicolon) = true → W p.advance q.advance
  enter : ∀ {p q}, W p q → W p.enter q.enter
  leave : ∀ {p q}, B p q → B p.leave q.leave
  refuse : ∀ {p q}, B p q → ∀ diagnostic, F (p.report diagnostic) (q.report diagnostic)
  /-- On the token itself only the start of an expression is refused. -/
  refuseHere : ∀ {p q}, W p q → ∀ diagnostic,
    diagnostic = .tooDeep ∨ diagnostic = .ofStray p.currentToken →
      F (p.report diagnostic) (q.report diagnostic)
  leaveGivenUp : ∀ {p q}, F p q → F p.leave q.leave
  skip : ∀ {p q}, F p q → F p.skipStatement q.skipStatement
  drop : ∀ {p q}, F p q → F p.countDropped q.countDropped

/-- Expressions start up to the token of a coupling and end before it. -/
def NestedAlike (W B F : Parser → Parser → Prop) (nested : Nested) : Prop :=
  ∀ ⦃p q : Parser⦄ (strength : Precedence), W p q →
    Alike B F (nested.parse strength p) (nested.parse strength q)

/-- Blocks run alike before the token of a coupling if the expressions in them do. -/
def BlocksAlike (W B F : Parser → Parser → Prop) : Prop :=
  ∀ ⦃nested : Nested⦄ ⦃p q : Parser⦄, NestedAlike W B F nested → B p q →
    p.currentToken.kind = .sign .leftBrace → Alike B F (block nested p) (block nested q)

namespace Coupling

variable {W B F : Parser → Parser → Prop} (C : Coupling W B F) {p q : Parser} {kind : Kind}
include C

/-! ## Moves -/

theorem peekIs (h : B p q) (kind : Kind) : p.peekIs kind = q.peekIs kind := by
  rw [Parser.peekIs, C.peek h, ← Parser.peekIs]

theorem before_of_kind (h : W p q) (hk : p.currentToken.kind = kind) (hc : kind.closes = false) :
    B p q :=
  C.before h (hk ▸ hc)

theorem advance_of_peekIs (h : B p q) (hk : p.peekIs kind = true) (hc : kind.closes = false) :
    B p.advance q.advance :=
  C.advance h ((beq_iff_eq.mp hk : p.peekToken.kind = kind) ▸ hc)

theorem next_of_kind (h : B p q) (hk : p.currentToken.kind = kind)
    (ha : kind.awaitsExpression = true) : W p.advance q.advance :=
  C.next h (hk ▸ ha)

theorem pastSemicolon (h : B p q) :
    W (p.pastOptional (.sign .semicolon)) (q.pastOptional (.sign .semicolon)) := by
  unfold pastOptional
  rw [← C.peekIs h]
  split
  next hk => exact C.close h hk
  next => exact C.near h

theorem expect (h : B p q) (hc : kind.closes = false) :
    Alike (fun p q => B p q ∧ p.currentToken.kind = kind) F (expect kind p) (expect kind q) := by
  unfold Rule.expect
  rw [← C.peekIs h, ← C.peek h]
  split
  next hk => exact .yields ⟨C.advance_of_peekIs h hk hc, peekIs_iff.mp hk⟩
  next => exact .gaveUp (C.refuse h _)

/-! ## Literals -/

theorem integer (h : B p q) : Alike B F (integer p) (integer q) := by
  unfold Parser.integer
  rw [current_bind, current_bind, ← C.current (C.near h)]
  cases integerValue? p.currentToken.literal with
  | some value => exact .yields h
  | none => exact .gaveUp (C.refuse h _)

theorem boolean (h : B p q) : Alike B F (boolean p) (boolean q) := by
  unfold Parser.boolean
  rw [current_bind, current_bind, ← C.current (C.near h)]
  exact .yields h

/-! ## Statements -/

section Statements

variable {nested : Nested} (hn : NestedAlike W B F nested)
include hn

/-- Both runs of a statement that was given up have skipped to its end. -/
theorem binding {G : Parser → Parser → Prop}
    (hG : ∀ {p q}, F p q → G p.skipStatement q.skipStatement)
    (h : W p q) (hk : p.currentToken.kind = .keyword .letWord) :
    Alike W G (binding nested p) (binding nested q) := by
  refine Alike.onGivingUp (F := F) ?_ hG
  rw [current_bind, current_bind, ← C.current h]
  refine (C.expect (C.before_of_kind h hk rfl) rfl).bind fun h => ?_
  rw [identifier_bind, identifier_bind, ← C.current (C.near h.1)]
  refine (C.expect h.1 rfl).bind fun h => ?_
  rw [skip_bind, skip_bind]
  refine (hn _ (C.next_of_kind h.1 h.2 rfl)).bind fun h => ?_
  exact .yields (C.pastSemicolon h)

theorem result {G : Parser → Parser → Prop}
    (hG : ∀ {p q}, F p q → G p.skipStatement q.skipStatement)
    (h : W p q) (hk : p.currentToken.kind = .keyword .returnWord) :
    Alike W G (result nested p) (result nested q) := by
  refine Alike.onGivingUp (F := F) ?_ hG
  rw [current_bind, current_bind, ← C.current h, skip_bind, skip_bind]
  refine (hn _ (C.next_of_kind (C.before_of_kind h hk rfl) hk rfl)).bind fun h => ?_
  exact .yields (C.pastSemicolon h)

theorem expressionStatement (h : W p q) :
    Alike W F (expressionStatement nested p) (expressionStatement nested q) := by
  unfold Parser.expressionStatement
  rw [current_bind, current_bind, ← C.current h]
  refine (hn _ h).bind fun h => ?_
  exact .yields (C.pastSemicolon h)

theorem statement (h : W p q) : Alike W F (statement nested p) (statement nested q) := by
  have hcur := C.current h
  by_cases hl : p.currentToken.kind = .keyword .letWord
  · rw [statement_of_let hl, statement_of_let (hcur ▸ hl)]
    exact (C.binding hn C.skip h hl).onGivingUp C.drop
  by_cases hr : p.currentToken.kind = .keyword .returnWord
  · rw [statement_of_return hr, statement_of_return (hcur ▸ hr)]
    exact (C.result hn C.skip h hr).onGivingUp C.drop
  · rw [statement_of_other hl hr, statement_of_other (hcur ▸ hl) (hcur ▸ hr)]
    exact (C.expressionStatement hn h).onGivingUp C.drop

/-- Where statements that were given up leave the parsers coupled, both runs leave the same gaps. -/
theorem statementOrGap (hF : ∀ {p q}, F p q → W p q) (h : W p q) :
    ∃ kept after last, W after last ∧
      statementOrGap nested p = (some kept, after.advance) ∧
      statementOrGap nested q = (some kept, last.advance) := by
  have hs := C.statement hn h
  unfold Parser.statementOrGap
  simp only [attempt_bind, skip_bind, pure_run]
  generalize Parser.statement nested p = run at hs ⊢
  generalize Parser.statement nested q = other at hs ⊢
  cases hs with
  | yields h => exact ⟨_, _, _, h, rfl, rfl⟩
  | gaveUp h => exact ⟨_, _, _, hF h, rfl, rfl⟩

end Statements

/-! ## Operands -/

section Operands

variable {nested : Nested} (hn : NestedAlike W B F nested)
include hn

theorem unary (h : B p q) (ha : p.currentToken.kind.awaitsExpression = true) :
    Alike B F (unary nested p) (unary nested q) := by
  unfold Parser.unary
  rw [current_bind, current_bind, ← C.current (C.near h), skip_bind, skip_bind]
  exact (hn _ (C.next h ha)).bind fun h => .yields h

theorem group (h : B p q) (ha : p.currentToken.kind.awaitsExpression = true) :
    Alike B F (group nested p) (group nested q) := by
  unfold Parser.group
  rw [skip_bind, skip_bind]
  refine (hn _ (C.next h ha)).bind fun h => ?_
  exact (C.expect h rfl).bind fun h => .yields h.1

omit hn in
theorem nextParameter (h : B p q) (hk : p.peekIs (.sign .comma) = true) :
    Alike B F (nextParameter p) (nextParameter q) := by
  unfold Parser.nextParameter
  rw [skip_bind, skip_bind]
  refine (C.expect (C.advance_of_peekIs h hk rfl) rfl).bind fun h => ?_
  unfold Parser.identifier
  rw [current_bind, current_bind, ← C.current (C.near h.1)]
  exact .yields h.1

omit hn in
theorem parameters (h : B p q) : Alike B F (parameters p) (parameters q) := by
  unfold Parser.parameters
  rw [see_bind, see_bind, ← C.peekIs h]
  split
  next hk => exact .yields (C.advance_of_peekIs h hk rfl)
  next =>
    refine (C.expect h rfl).bind fun h => ?_
    rw [identifier_bind, identifier_bind, ← C.current (C.near h.1)]
    refine (Alike.many (P := B) (fun h => C.peekIs h _) C.nextParameter h.1).bind fun h => ?_
    exact (C.expect h rfl).bind fun h => .yields h.1

variable (hb : BlocksAlike W B F)
include hb

theorem function (h : B p q) : Alike B F (function nested p) (function nested q) := by
  unfold Parser.function
  rw [current_bind, current_bind, ← C.current (C.near h)]
  refine (C.expect h rfl).bind fun h => ?_
  refine (C.parameters h.1).bind fun h => ?_
  refine (C.expect h rfl).bind fun h => ?_
  exact (hb hn h.1 h.2).bind fun h => .yields h

theorem conditional (h : B p q) : Alike B F (conditional nested p) (conditional nested q) := by
  unfold Parser.conditional
  rw [current_bind, current_bind, ← C.current (C.near h)]
  refine (C.expect h rfl).bind fun h => ?_
  rw [skip_bind, skip_bind]
  refine (hn _ (C.next_of_kind h.1 h.2 rfl)).bind fun h => ?_
  refine (C.expect h rfl).bind fun h => ?_
  refine (C.expect h.1 rfl).bind fun h => ?_
  refine (hb hn h.1 h.2).bind fun h => ?_
  rw [see_bind, see_bind, ← C.peekIs h]
  split
  next he =>
    rw [skip_bind, skip_bind]
    refine (C.expect (C.advance_of_peekIs h he rfl) rfl).bind fun h => ?_
    exact (hb hn h.1 h.2).bind fun h => .yields h
  next => exact .yields h

theorem operand (h : W p q) : Alike B F (operand nested p) (operand nested q) := by
  rw [operand_run, operand_run, ← C.current h]
  split
  next hk => exact .yields (C.before_of_kind h hk rfl)
  next hk => exact C.integer (C.before_of_kind h hk rfl)
  next hk => exact C.boolean (C.before_of_kind h hk rfl)
  next hk => exact C.boolean (C.before_of_kind h hk rfl)
  next hk => exact C.unary hn (C.before_of_kind h hk rfl) (hk ▸ rfl)
  next hk => exact C.unary hn (C.before_of_kind h hk rfl) (hk ▸ rfl)
  next hk => exact C.group hn (C.before_of_kind h hk rfl) (hk ▸ rfl)
  next hk => exact C.conditional hn hb (C.before_of_kind h hk rfl)
  next hk => exact C.function hn hb (C.before_of_kind h hk rfl)
  next => exact .gaveUp (C.refuseHere h _ (.inr rfl))

end Operands

/-! ## Operators -/

section Operators

variable {nested : Nested} (hn : NestedAlike W B F nested)
include hn

theorem binary (h : B p q) (ha : p.currentToken.kind.awaitsExpression = true) (left : Expression) :
    Alike B F (binary nested left p) (binary nested left q) := by
  have hcur := C.current (C.near h)
  unfold Parser.binary
  rw [current_bind, current_bind, ← hcur, see_bind, see_bind, currentPrecedence, currentPrecedence,
    ← hcur, skip_bind, skip_bind]
  exact (hn _ (C.next h ha)).bind fun h => .yields h

theorem nextArgument (h : B p q) (hk : p.peekIs (.sign .comma) = true) :
    Alike B F (nextArgument nested p) (nextArgument nested q) := by
  unfold Parser.nextArgument
  rw [skip_bind, skip_bind, skip_bind, skip_bind]
  exact hn _ (C.next_of_kind (C.advance_of_peekIs h hk rfl) (peekIs_iff.mp hk) rfl)

theorem arguments (h : B p q) (ha : p.currentToken.kind.awaitsExpression = true) :
    Alike B F (arguments nested p) (arguments nested q) := by
  unfold Parser.arguments
  rw [see_bind, see_bind, ← C.peekIs h]
  split
  next hk => exact .yields (C.advance_of_peekIs h hk rfl)
  next =>
    rw [skip_bind, skip_bind]
    refine (hn _ (C.next h ha)).bind fun h => ?_
    refine (Alike.many (P := B) (fun h => C.peekIs h _) (C.nextArgument hn) h).bind fun h => ?_
    exact (C.expect h rfl).bind fun h => .yields h.1

theorem call (h : B p q) (ha : p.currentToken.kind.awaitsExpression = true) (callee : Expression) :
    Alike B F (call nested callee p) (call nested callee q) := by
  unfold Parser.call
  rw [current_bind, current_bind, ← C.current (C.near h)]
  exact (C.arguments hn h ha).bind fun h => .yields h

theorem continued {strength : Precedence} {left : Expression} (h : B p q)
    (hs : bindsTighter strength p = true) :
    Alike B F (continued nested left p) (continued nested left q) := by
  obtain ⟨hc, ha⟩ := operator_of_bindsTighter hs
  have hnext : B p.advance q.advance := C.advance h hc
  have hcur := C.current (C.near hnext)
  by_cases hk : p.advance.currentToken.kind = .sign .leftParen
  · rw [continued_of_leftParen hk, continued_of_leftParen (hcur ▸ hk)]
    exact C.call hn hnext ha left
  · rw [continued_of_other hk, continued_of_other (hcur ▸ hk)]
    exact C.binary hn hnext ha left

theorem climb (h : B p q) (strength : Precedence) (left : Expression) :
    Alike B F (climb nested strength left p) (climb nested strength left q) := by
  refine Alike.fold (P := B) (fun h => ?_) (fun h hs => C.continued hn h hs) h
  rw [bindsTighter, peekPrecedence, C.peek h, ← peekPrecedence, ← bindsTighter]

theorem level (hb : BlocksAlike W B F) (h : W p q) (strength : Precedence) :
    Alike B F (level nested strength p) (level nested strength q) :=
  (C.operand hn hb h).bind fun h => C.climb hn h strength _

end Operators

theorem nestedIn (hb : BlocksAlike W B F) (room : Nat) : NestedAlike W B F (nestedIn room) := by
  induction room with
  | zero =>
      intro p q strength h
      exact .gaveUp (C.skip (C.refuseHere h _ (.inl rfl)))
  | succ room ih =>
      intro p q strength h
      exact (C.level ih hb (C.enter h) strength).map C.leave C.leaveGivenUp

end Coupling

end Parser

end MonkeyFront
