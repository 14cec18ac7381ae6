import MonkeyFront.Proofs.Parser.Accounting

/-!
# Levels that are not opened

A parser that may open more levels of expressions does the same as one that may open fewer, as long
as it does not open more. How many it has opened is counted while it runs and never goes down, so
the count at the end is enough to tell.
-/

namespace MonkeyFront.Parser

open Rule

/-! ## The count of open levels -/

/-- A run that closed the levels that it opened, and kept the most that were open. -/
def Deepens (first : Parser) (_gaveUp : Bool) (last : Parser) : Prop :=
  last.depth = first.depth ∧ first.tally.deepest ≤ last.tally.deepest

theorem contract_deepens : Contract Deepens where
  stay _ := ⟨rfl, Nat.le_refl _⟩
  next _ := ⟨rfl, Nat.le_refl _⟩
  refuse _ := ⟨rfl, Nat.le_refl _⟩
  andThen h hl := ⟨hl.1.trans h.1, Nat.le_trans h.2 hl.2⟩
  goOn h := h
  drop h := h

theorem deepens_refuse {α : Type} (diagnostic : Diagnostic) :
    Keeps Deepens (refuse diagnostic : Rule α) :=
  fun _ => ⟨rfl, Nat.le_refl _⟩

theorem Deepens.level {first last : Parser} {gaveUp : Bool} (h : Deepens first.enter gaveUp last) :
    Deepens first gaveUp last.leave := by
  have hdepth : last.depth = first.depth + 1 := h.1
  refine ⟨by simp [leave, hdepth], Nat.le_trans ?_ h.2⟩
  exact Nat.le_max_left _ _

theorem deepens_nestedIn (room : Nat) (strength : Precedence) :
    Keeps Deepens ((nestedIn room).parse strength) :=
  Contract.nestedIn (C := fun _ => Deepens) (fun _ => contract_deepens) Deepens.level room strength

/-! ## Runs that stay shallow -/

variable {α β : Type} {depth most : Nat} {rule other : Rule α} {parser : Parser}

/-- Another rule runs as this one does from a depth on, where this one never has more than a number
of levels open. -/
structure Shallow (depth most : Nat) (rule other : Rule α) : Prop where
  deepens : Keeps Deepens rule
  same : ∀ {parser : Parser}, parser.depth = depth → (rule parser).2.tally.deepest ≤ most →
    other parser = rule parser

namespace Shallow

theorem refl (h : Keeps Deepens rule) : Shallow depth most rule rule := ⟨h, fun _ _ => rfl⟩

/-- A part of a run that stays shallow stays shallow itself. -/
theorem of_run (h : Shallow depth most rule other) {outcome : Option α} {after : Parser}
    (hr : rule parser = (outcome, after)) (hd : parser.depth = depth)
    (hm : after.tally.deepest ≤ most) : other parser = (outcome, after) ∧ after.depth = depth := by
  have hkeeps := h.deepens parser
  rw [hr] at hkeeps
  refine ⟨(h.same hd ?_).trans hr, hkeeps.1.trans hd⟩
  rw [hr]
  exact hm

theorem bind {more others : α → Rule β} (h : Shallow depth most rule other)
    (hm : ∀ value, Shallow depth most (more value) (others value)) :
    Shallow depth most (rule >>= more) (other >>= others) := by
  refine ⟨contract_deepens.bind h.deepens fun value => (hm value).deepens, ?_⟩
  intro parser hd hmost
  cases hr : rule parser with
  | mk outcome after =>
      cases outcome with
      | none =>
          rw [bind_of_none hr] at hmost ⊢
          exact bind_of_none (h.of_run hr hd hmost).1 _
      | some value =>
          rw [bind_of_some hr] at hmost ⊢
          have hafter := Nat.le_trans ((hm value).deepens after).2 hmost
          obtain ⟨hother, hdepth⟩ := h.of_run hr hd hafter
          rw [bind_of_some hother]
          exact (hm value).same hdepth hmost

theorem ite {condition : Prop} [Decidable condition] {second otherSecond : Rule α}
    (h : Shallow depth most rule other) (hs : Shallow depth most second otherSecond) :
    Shallow depth most (if condition then rule else second)
      (if condition then other else otherSecond) := by
  split <;> assumption

theorem onGivingUp {change : Parser → Parser}
    (hc : ∀ parser, (change parser).depth = parser.depth ∧ (change parser).tally.deepest =
      parser.tally.deepest)
    (h : Shallow depth most rule other) :
    Shallow depth most (onGivingUp change rule) (onGivingUp change other) := by
  constructor
  · intro parser
    have hkeeps := h.deepens parser
    unfold Rule.onGivingUp
    split
    next he => rwa [he] at hkeeps
    next after he =>
      rw [he] at hkeeps
      exact ⟨(hc after).1.trans hkeeps.1, (hc after).2 ▸ hkeeps.2⟩
  · intro parser hd hmost
    have hsame : (rule parser).2.tally.deepest ≤ most := by
      unfold Rule.onGivingUp at hmost
      split at hmost
      next he => simpa [he] using hmost
      next after he =>
        rw [he]
        exact (hc after).2 ▸ hmost
    unfold Rule.onGivingUp
    rw [h.same hd hsame]

theorem skipping (h : Shallow depth most rule other) :
    Shallow depth most (Rule.onGivingUp skipStatement rule) (Rule.onGivingUp skipStatement other) :=
  h.onGivingUp fun _ => ⟨rfl, rfl⟩

theorem attempt (h : Shallow depth most rule other) :
    Shallow depth most rule.attempt other.attempt := by
  refine ⟨fun parser => h.deepens parser, fun hd hmost => ?_⟩
  unfold Rule.attempt at hmost ⊢
  rw [h.same hd hmost]

theorem many {goOn : Parser → Bool} {takes : Takes goOn rule} {otherTakes : Takes goOn other}
    (h : Shallow depth most rule other) :
    Shallow depth most (Rule.many goOn rule takes) (Rule.many goOn other otherTakes) := by
  have hloop : Keeps Deepens (Rule.many goOn rule takes) := contract_deepens.many h.deepens
  refine ⟨hloop, ?_⟩
  intro parser hd hmost
  fun_induction Rule.many goOn rule takes parser with
  | case1 parser hg after hi => exact (many_run hg).trans (bind_of_none (h.of_run hi hd hmost).1 _)
  | case2 parser hg value after hi last hl ih =>
      have hafter := Nat.le_trans (hloop.of_none hl).2 hmost
      obtain ⟨hother, hdepth⟩ := h.of_run hi hd hafter
      rw [hl] at ih
      rw [many_run hg, bind_of_some hother, bind_of_none (ih hdepth hmost)]
  | case3 parser hg value after hi values last hl ih =>
      have hafter := Nat.le_trans (hloop.of_some hl).2 hmost
      obtain ⟨hother, hdepth⟩ := h.of_run hi hd hafter
      rw [hl] at ih
      exact many_more hg hother (ih hdepth hmost)
  | case4 parser hg => exact many_stop (by simpa using hg)

theorem fold {goOn : Parser → Bool} {step others : α → Rule α}
    {takes : ∀ value, Takes goOn (step value)} {otherTakes : ∀ value, Takes goOn (others value)}
    (h : ∀ value, Shallow depth most (step value) (others value)) (value : α) :
    Shallow depth most (Rule.fold goOn step takes value)
      (Rule.fold goOn others otherTakes value) := by
  have hloop (value : α) : Keeps Deepens (Rule.fold goOn step takes value) :=
    contract_deepens.fold (fun value => (h value).deepens) value
  refine ⟨hloop value, ?_⟩
  intro parser hd hmost
  fun_induction Rule.fold goOn step takes value parser with
  | case1 value parser hg after hs =>
      exact (fold_run hg).trans (bind_of_none ((h value).of_run hs hd hmost).1 _)
  | case2 value parser hg next after hs ih =>
      have hafter := Nat.le_trans (hloop next after).2 hmost
      obtain ⟨hother, hdepth⟩ := (h value).of_run hs hd hafter
      exact ((fold_run hg).trans (bind_of_some hother _)).trans (ih hdepth hmost)
  | case3 value parser hg => exact fold_stop (by simpa using hg)

end Shallow

/-! ## Rules around nested expressions -/

section Rules

variable {wide narrow : Nested}
  (hn : ∀ strength, Shallow depth most (wide.parse strength) (narrow.parse strength))

/-- A rule that parses no expression is run as it is. -/
theorem Shallow.plain (h : Keeps Deepens rule) {more others : α → Rule β}
    (hm : ∀ value, Shallow depth most (more value) (others value)) :
    Shallow depth most (rule >>= more) (rule >>= others) :=
  (Shallow.refl h).bind hm

theorem Shallow.expect {kind : Kind} {more others : Unit → Rule β}
    (hm : ∀ value, Shallow depth most (more value) (others value))
    (hk : kind ∈ Kind.reserved := by decide) :
    Shallow depth most (Rule.expect kind >>= more) (Rule.expect kind >>= others) :=
  .plain (contract_deepens.expect hk) hm

theorem Shallow.done (value : α) :
    Shallow depth most (pure value : Rule α) (pure value : Rule α) :=
  .refl (contract_deepens.pure value)

include hn

theorem shallow_binding : Shallow depth most (binding wide) (binding narrow) :=
  .skipping <|
    .plain contract_deepens.current fun _ => .expect fun _ =>
    .plain contract_deepens.identifier fun _ => .expect fun _ =>
    .plain contract_deepens.skip fun _ => (hn _).bind fun _ =>
    .plain (contract_deepens.skipOptional _) fun _ => .done _

theorem shallow_result : Shallow depth most (result wide) (result narrow) :=
  .skipping <|
    .plain contract_deepens.current fun _ => .plain contract_deepens.skip fun _ =>
    (hn _).bind fun _ => .plain (contract_deepens.skipOptional _) fun _ => .done _

theorem shallow_expressionStatement :
    Shallow depth most (expressionStatement wide) (expressionStatement narrow) :=
  .plain contract_deepens.current fun _ => (hn _).bind fun _ =>
    .plain (contract_deepens.skipOptional _) fun _ => .done _

theorem shallow_statement : Shallow depth most (statement wide) (statement narrow) := by
  refine .onGivingUp (fun _ => ⟨rfl, rfl⟩) (.plain contract_deepens.current fun token => ?_)
  split
  · exact shallow_binding hn
  · exact shallow_result hn
  · exact shallow_expressionStatement hn

theorem shallow_statementOrGap :
    Shallow depth most (statementOrGap wide) (statementOrGap narrow) :=
  (shallow_statement hn).attempt.bind fun _ => .plain contract_deepens.skip fun _ => .done _

theorem shallow_block : Shallow depth most (block wide) (block narrow) := by
  refine .plain contract_deepens.current fun _ => .plain contract_deepens.skip fun _ =>
    (shallow_statementOrGap hn).many.bind fun _ => .plain (contract_deepens.see _) fun _ => .ite ?_ ?_
  · exact .refl (deepens_refuse _)
  · exact .done _

theorem shallow_program : Shallow depth most (program wide) (program narrow) :=
  (shallow_statementOrGap hn).many.bind fun _ => .done _

/-! ## Operands -/

theorem shallow_unary : Shallow depth most (unary wide) (unary narrow) :=
  .plain contract_deepens.current fun _ => .plain contract_deepens.skip fun _ =>
    (hn _).bind fun _ => .done _

theorem shallow_group : Shallow depth most (group wide) (group narrow) :=
  .plain contract_deepens.skip fun _ => (hn _).bind fun _ => .expect fun _ => .done _

theorem shallow_conditional : Shallow depth most (conditional wide) (conditional narrow) := by
  refine .plain contract_deepens.current fun _ => .expect fun _ =>
    .plain contract_deepens.skip fun _ => (hn _).bind fun _ => .expect fun _ => .expect fun _ =>
    (shallow_block hn).bind fun _ => .plain (contract_deepens.see _) fun _ => .ite ?_ ?_
  · exact .plain contract_deepens.skip fun _ => .expect fun _ =>
      (shallow_block hn).bind fun _ => .done _
  · exact .done _

theorem shallow_function : Shallow depth most (function wide) (function narrow) :=
  .plain contract_deepens.current fun _ => .expect fun _ =>
    .plain contract_deepens.parameters fun _ => .expect fun _ =>
    (shallow_block hn).bind fun _ => .done _

theorem shallow_operand : Shallow depth most (operand wide) (operand narrow) := by
  refine .plain contract_deepens.current fun token => ?_
  split
  · exact .plain contract_deepens.identifier fun _ => .done _
  · exact .refl contract_deepens.integer
  · exact .refl contract_deepens.boolean
  · exact .refl contract_deepens.boolean
  · exact shallow_unary hn
  · exact shallow_unary hn
  · exact shallow_group hn
  · exact shallow_conditional hn
  · exact shallow_function hn
  · exact .refl (deepens_refuse _)

/-! ## Operators -/

theorem shallow_binary (left : Expression) :
    Shallow depth most (binary wide left) (binary narrow left) :=
  .plain contract_deepens.current fun _ => .plain (contract_deepens.see _) fun _ =>
    .plain contract_deepens.skip fun _ => (hn _).bind fun _ => .done _

theorem shallow_nextArgument : Shallow depth most (nextArgument wide) (nextArgument narrow) :=
  .plain contract_deepens.skip fun _ => .plain contract_deepens.skip fun _ => hn _

theorem shallow_arguments : Shallow depth most (arguments wide) (arguments narrow) := by
  refine .plain (contract_deepens.see _) fun _ => .ite ?_ ?_
  · exact .plain contract_deepens.skip fun _ => .done _
  · exact .plain contract_deepens.skip fun _ => (hn _).bind fun _ =>
      (shallow_nextArgument hn).many.bind fun _ => .expect fun _ => .done _

theorem shallow_call (callee : Expression) :
    Shallow depth most (call wide callee) (call narrow callee) :=
  .plain contract_deepens.current fun _ => (shallow_arguments hn).bind fun _ => .done _

theorem shallow_continued (left : Expression) :
    Shallow depth most (continued wide left) (continued narrow left) :=
  .plain contract_deepens.skip fun _ => .plain (contract_deepens.see _) fun _ =>
    .ite (shallow_call hn left) (shallow_binary hn left)

theorem shallow_level (strength : Precedence) :
    Shallow depth most (level wide strength) (level narrow strength) :=
  (shallow_operand hn).bind fun left => .fold (shallow_continued hn) left

end Rules

/-! ## Levels -/

/-- A level counts the one that it opens. -/
theorem shallow_inLevel {rule other : Rule Expression} (h : Shallow (depth + 1) most rule other) :
    Shallow depth most (inLevel rule) (inLevel other) := by
  refine ⟨fun parser => (h.deepens parser.enter).level, ?_⟩
  intro parser hd hmost
  have hsame : other parser.enter = rule parser.enter := h.same (congrArg (· + 1) hd) hmost
  simp only [inLevel, hsame]

/-- Room for more levels than are opened makes no difference. -/
theorem shallow_nestedIn (room spare depth : Nat) (strength : Precedence) :
    Shallow depth (depth + room) ((nestedIn (room + spare)).parse strength)
      ((nestedIn room).parse strength) := by
  induction room generalizing depth strength with
  | zero =>
      refine ⟨deepens_nestedIn _ strength, ?_⟩
      intro parser hd hmost
      cases spare with
      | zero => rfl
      | succ spare =>
          -- With room for a level one is opened, and that is one too many.
          have hkeeps := (contract_deepens.oneLevel (deepens_nestedIn (0 + spare)) strength
            parser.enter).2
          have hopen : parser.depth + 1 ≤ parser.enter.tally.deepest := Nat.le_max_right _ _
          have hdeepest := Nat.le_trans (Nat.le_trans hopen hkeeps) hmost
          omega
  | succ room ih =>
      rw [show room + 1 + spare = room + spare + 1 by omega,
        show depth + (room + 1) = depth + 1 + room by omega]
      exact shallow_inLevel (shallow_level (fun strength => ih (depth + 1) strength) strength)

/-- A source in which no more levels are opened than there is room for is parsed as with all the
room there is. -/
theorem program_of_deepest {source : String} {room : Nat} (hroom : room ≤ maxDepth)
    (h : (atEnd source).tally.deepest ≤ room) :
    program (nestedIn room) (ofSource source) = program (nestedIn maxDepth) (ofSource source) := by
  obtain ⟨spare, hspare⟩ := Nat.exists_eq_add_of_le hroom
  have hprogram := shallow_program fun strength => shallow_nestedIn room spare 0 strength
  rw [← hspare, Nat.zero_add] at hprogram
  exact hprogram.same rfl h

end MonkeyFront.Parser
