import MonkeyFront.Proofs.Parser.Run

/-!
# Contracts of the rules

A contract relates a parser, whether a rule gave up on it, and the parser after the rule. The rules
are made of a few moves, so a contract that these moves keep is kept by every rule. One of the moves
is to refuse what is found, and what can be found is said once here. The first contract: what was
reported stays reported, and a rule that gives up leaves a report.
-/

namespace MonkeyFront.Parser

open Rule

/-- What the rules find wrong where a parser stands. They want no kinds but those of the closed
set. -/
inductive Finds (parser : Parser) : Diagnostic → Prop
  | unexpected {kind : Kind} (h : kind ∈ Kind.reserved) :
      Finds parser (.unexpected kind parser.peekToken.kind)
  /-- The source ends inside a block. -/
  | unclosed : Finds parser (.unexpected (.sign .rightBrace) .eof)
  | stray : Finds parser (.ofStray parser.currentToken)
  | badInteger : Finds parser (.badInteger parser.currentToken.literal)
  | tooDeep : Finds parser .tooDeep

/-- A relation that the moves of the parser keep. -/
structure Contract (C : Parser → Bool → Parser → Prop) : Prop where
  stay : ∀ parser, C parser false parser
  next : ∀ parser, C parser false parser.advance
  refuse : ∀ {parser diagnostic}, parser.Finds diagnostic → C parser true (parser.report diagnostic)
  andThen : ∀ {first middle last : Parser} {gaveUp : Bool},
    C first false middle → C middle gaveUp last → C first gaveUp last
  goOn : ∀ {first last : Parser}, C first true last → C first true last.advance
  drop : ∀ {first last : Parser}, C first true last → C first false last.countDropped

/-- A rule keeps a contract wherever it starts. -/
def Rule.Keeps {α : Type} (C : Parser → Bool → Parser → Prop) (rule : Rule α) : Prop :=
  ∀ parser, C parser (rule parser).1.isNone (rule parser).2

variable {C : Parser → Bool → Parser → Prop} {α β : Type}

theorem Rule.Keeps.of_some {rule : Rule α} (h : Keeps C rule) {parser after : Parser} {value : α}
    (he : rule parser = (some value, after)) : C parser false after := by
  simpa [he] using h parser

theorem Rule.Keeps.of_none {rule : Rule α} (h : Keeps C rule) {parser after : Parser}
    (he : rule parser = (none, after)) : C parser true after := by
  simpa [he] using h parser

/-- Skipping to the end of a statement is going on some number of times. -/
theorem skipStatement_induction {P : Parser → Prop} (step : ∀ parser, P parser → P parser.advance)
    (parser : Parser) (h : P parser) : P parser.skipStatement := by
  generalize hu : parser.upcoming = upcoming
  induction upcoming generalizing parser with
  | nil =>
      have : parser.skipStatement = parser := by
        unfold skipStatement
        rw [hu, fromStatementEnd, ← hu]
      rwa [this]
  | cons first others ih =>
      have hrest : parser.advance.upcoming = others := by simp [advance, hu]
      unfold skipStatement
      rw [hu, fromStatementEnd]
      split
      · rwa [← hu]
      · have := ih parser.advance (step parser h) hrest
        unfold skipStatement at this
        rwa [hrest] at this

namespace Contract

variable (hC : Contract C)
include hC

/-! ## Moves -/

theorem pure (value : α) : Keeps C (pure value : Rule α) := hC.stay

theorem see (view : Parser → α) : Keeps C (see view) := hC.stay

theorem current : Keeps C current := hC.stay

theorem skip : Keeps C skip := hC.next

theorem giveUp {diagnostic : Diagnostic} (h : ∀ parser : Parser, parser.Finds diagnostic) :
    Keeps C (Rule.refuse diagnostic : Rule α) :=
  fun parser => hC.refuse (h parser)

theorem bind {rule : Rule α} {more : α → Rule β} (h : Keeps C rule)
    (hm : ∀ value, Keeps C (more value)) : Keeps C (rule >>= more) := by
  intro parser
  change C parser (Rule.bind rule more parser).1.isNone (Rule.bind rule more parser).2
  unfold Rule.bind
  split
  next value after he => exact hC.andThen (h.of_some he) (hm value after)
  next after he => exact h.of_none he

omit hC in
theorem ite {condition : Prop} [Decidable condition] {first second : Rule α}
    (h : Keeps C first) (hs : Keeps C second) :
    Keeps C (if condition then first else second) := by
  split <;> assumption

theorem expect {kind : Kind} (h : kind ∈ Kind.reserved := by decide) : Keeps C (expect kind) := by
  intro parser
  unfold Rule.expect
  split
  · exact hC.next parser
  · exact hC.refuse (.unexpected h)

theorem skipOptional (kind : Kind) : Keeps C (skipOptional kind) := by
  intro parser
  simp only [Rule.skipOptional, move]
  split
  · exact hC.next parser
  · exact hC.stay parser

theorem skipping {rule : Rule α} (h : Keeps C rule) : Keeps C (onGivingUp skipStatement rule) := by
  intro parser
  unfold onGivingUp
  split
  next he => exact h.of_some he
  next after he =>
    exact skipStatement_induction (P := C parser true) (fun _ => hC.goOn) after (h.of_none he)

omit hC in
/-- A rule whose giving up is counted. -/
theorem dropping_cases {rule : Rule α} (h : Keeps C rule) (parser : Parser) :
    (∃ value after, onGivingUp countDropped rule parser = (some value, after) ∧
      C parser false after) ∨
      ∃ after, onGivingUp countDropped rule parser = (none, after.countDropped) ∧
        C parser true after := by
  unfold onGivingUp
  split
  next he => exact .inl ⟨_, _, rfl, h.of_some he⟩
  next he => exact .inr ⟨_, rfl, h.of_none he⟩

theorem many {goOn : Parser → Bool} {item : Rule α} {takes : Takes goOn item}
    (h : Keeps C item) : Keeps C (many goOn item takes) := by
  intro parser
  fun_induction Rule.many goOn item takes parser with
  | case1 parser hg after hi => exact h.of_none hi
  | case2 parser hg value after hi last hl ih =>
      rw [hl] at ih
      exact hC.andThen (h.of_some hi) ih
  | case3 parser hg value after hi values last hl ih =>
      rw [hl] at ih
      exact hC.andThen (h.of_some hi) ih
  | case4 parser hg => exact hC.stay parser

theorem fold {goOn : Parser → Bool} {step : α → Rule α} {takes : ∀ value, Takes goOn (step value)}
    (h : ∀ value, Keeps C (step value)) (value : α) : Keeps C (fold goOn step takes value) := by
  intro parser
  fun_induction Rule.fold goOn step takes value parser with
  | case1 value parser hg after hs => exact (h value).of_none hs
  | case2 value parser hg next after hs ih => exact hC.andThen ((h value).of_some hs) ih
  | case3 value parser hg => exact hC.stay parser

/-! ## Literals -/

theorem identifier : Keeps C identifier := hC.bind hC.current fun _ => hC.pure _

theorem integer : Keeps C integer := by
  intro parser
  unfold Parser.integer
  rw [current_bind]
  cases integerValue? parser.currentToken.literal with
  | some value => exact hC.pure _ parser
  | none => exact hC.refuse .badInteger

theorem boolean : Keeps C boolean := hC.bind hC.current fun _ => hC.pure _

/-! ## Statements -/

section Statements

variable {nested : Nested} (hn : ∀ strength, Keeps C (nested.parse strength))
include hn

theorem binding : Keeps C (binding nested) :=
  hC.skipping <|
    hC.bind hC.current fun _ => hC.bind hC.expect fun _ => hC.bind hC.identifier fun _ =>
    hC.bind hC.expect fun _ => hC.bind hC.skip fun _ => hC.bind (hn _) fun _ =>
    hC.bind (hC.skipOptional _) fun _ => hC.pure _

theorem result : Keeps C (result nested) :=
  hC.skipping <|
    hC.bind hC.current fun _ => hC.bind hC.skip fun _ => hC.bind (hn _) fun _ =>
    hC.bind (hC.skipOptional _) fun _ => hC.pure _

theorem expressionStatement : Keeps C (expressionStatement nested) :=
  hC.bind hC.current fun _ => hC.bind (hn _) fun _ =>
  hC.bind (hC.skipOptional _) fun _ => hC.pure _

/-- What is behind the statement rule: a rule that keeps the contract, and a count of what it gave
up. -/
theorem statement_cases (parser : Parser) :
    (∃ value after, statement nested parser = (some value, after) ∧ C parser false after) ∨
      ∃ after, statement nested parser = (none, after.countDropped) ∧ C parser true after := by
  by_cases hl : parser.currentToken.kind = .keyword .letWord
  · rw [statement_of_let hl]
    exact dropping_cases (hC.binding hn) parser
  by_cases hr : parser.currentToken.kind = .keyword .returnWord
  · rw [statement_of_return hr]
    exact dropping_cases (hC.result hn) parser
  · rw [statement_of_other hl hr]
    exact dropping_cases (hC.expressionStatement hn) parser

theorem statement (parser : Parser) : C parser false (statement nested parser).2 := by
  rcases hC.statement_cases hn parser with ⟨value, after, he, h⟩ | ⟨after, he, h⟩
  · rw [he]
    exact h
  · rw [he]
    exact hC.drop h

theorem statementOrGap : Keeps C (statementOrGap nested) :=
  hC.bind (hC.statement hn) fun _ => hC.bind hC.skip fun _ => hC.pure _

theorem block : Keeps C (block nested) := by
  refine hC.bind hC.current fun _ => hC.bind hC.skip fun _ =>
    hC.bind (hC.many (hC.statementOrGap hn)) fun _ => hC.bind (hC.see _) fun _ => ite ?_ ?_
  · exact hC.giveUp fun _ => .unclosed
  · exact hC.pure _

theorem program : Keeps C (program nested) :=
  hC.bind (hC.many (hC.statementOrGap hn)) fun _ => hC.pure _

/-! ## Operands -/

theorem unary : Keeps C (unary nested) :=
  hC.bind hC.current fun _ => hC.bind hC.skip fun _ => hC.bind (hn _) fun _ => hC.pure _

theorem group : Keeps C (group nested) :=
  hC.bind hC.skip fun _ => hC.bind (hn _) fun _ => hC.bind hC.expect fun _ => hC.pure _

theorem conditional : Keeps C (conditional nested) := by
  refine hC.bind hC.current fun _ => hC.bind hC.expect fun _ => hC.bind hC.skip fun _ =>
    hC.bind (hn _) fun _ => hC.bind hC.expect fun _ => hC.bind hC.expect fun _ =>
    hC.bind (hC.block hn) fun _ => hC.bind (hC.see _) fun _ => ite ?_ ?_
  · exact hC.bind hC.skip fun _ => hC.bind hC.expect fun _ =>
      hC.bind (hC.block hn) fun _ => hC.pure _
  · exact hC.pure _

omit hn in
theorem parameters : Keeps C parameters := by
  have hnext : Keeps C nextParameter :=
    hC.bind hC.skip fun _ => hC.bind hC.expect fun _ => hC.identifier
  refine hC.bind (hC.see _) fun _ => ite ?_ ?_
  · exact hC.bind hC.skip fun _ => hC.pure _
  · exact hC.bind hC.expect fun _ => hC.bind hC.identifier fun _ =>
      hC.bind (hC.many hnext) fun _ => hC.bind hC.expect fun _ => hC.pure _

theorem function : Keeps C (function nested) :=
  hC.bind hC.current fun _ => hC.bind hC.expect fun _ => hC.bind hC.parameters fun _ =>
  hC.bind hC.expect fun _ => hC.bind (hC.block hn) fun _ => hC.pure _

theorem operand : Keeps C (operand nested) := by
  intro parser
  rw [operand_run]
  split
  · exact hC.pure _ parser
  · exact hC.integer parser
  · exact hC.boolean parser
  · exact hC.boolean parser
  · exact hC.unary hn parser
  · exact hC.unary hn parser
  · exact hC.group hn parser
  · exact hC.conditional hn parser
  · exact hC.function hn parser
  · exact hC.refuse .stray

/-! ## Operators -/

theorem binary (left : Expression) : Keeps C (binary nested left) :=
  hC.bind hC.current fun _ => hC.bind (hC.see _) fun _ => hC.bind hC.skip fun _ =>
  hC.bind (hn _) fun _ => hC.pure _

theorem nextArgument : Keeps C (nextArgument nested) :=
  hC.bind hC.skip fun _ => hC.bind hC.skip fun _ => hn _

theorem arguments : Keeps C (arguments nested) := by
  refine hC.bind (hC.see _) fun _ => ite ?_ ?_
  · exact hC.bind hC.skip fun _ => hC.pure _
  · exact hC.bind hC.skip fun _ => hC.bind (hn _) fun _ =>
      hC.bind (hC.many (hC.nextArgument hn)) fun _ => hC.bind hC.expect fun _ => hC.pure _

theorem call (callee : Expression) : Keeps C (call nested callee) :=
  hC.bind hC.current fun _ => hC.bind (hC.arguments hn) fun _ => hC.pure _

theorem continued (left : Expression) : Keeps C (continued nested left) :=
  hC.bind hC.skip fun _ => hC.bind (hC.see _) fun _ => ite (hC.call hn left) (hC.binary hn left)

theorem climb (strength : Precedence) (left : Expression) : Keeps C (climb nested strength left) :=
  hC.fold (hC.continued hn) left

theorem oneLevel (strength : Precedence) : Keeps C (Parser.level nested strength) :=
  hC.bind (hC.operand hn) (hC.climb hn strength)

end Statements

end Contract

/-- Expressions keep the contracts for the levels left, if opening a level leads from each contract
to the next. -/
theorem Contract.nestedIn {C : Nat → Parser → Bool → Parser → Prop}
    (hC : ∀ room, Contract (C room))
    (level : ∀ {room : Nat} {first last : Parser} {gaveUp : Bool},
      C room first.enter gaveUp last → C (room + 1) first gaveUp last.leave)
    (room : Nat) (strength : Precedence) : Keeps (C room) ((nestedIn room).parse strength) := by
  induction room generalizing strength with
  | zero => exact (hC 0).skipping ((hC 0).giveUp fun _ => .tooDeep)
  | succ room ih =>
      intro parser
      have hlevel := (hC room).oneLevel ih strength parser.enter
      exact level hlevel

/-! ## Reports stay -/

/-- Nothing that was reported is taken back, and giving up leaves a report. -/
def Grows (first : Parser) (gaveUp : Bool) (last : Parser) : Prop :=
  first.reports.toList <+: last.reports.toList ∧
    (gaveUp = true → first.reports.size < last.reports.size)

theorem Grows.size_le {first last : Parser} {gaveUp : Bool} (h : Grows first gaveUp last) :
    first.reports.size ≤ last.reports.size := by
  simpa using h.1.length_le

theorem Grows.advance {first last : Parser} {gaveUp : Bool} (h : Grows first gaveUp last) :
    Grows first gaveUp last.advance := h

theorem contract_grows : Contract Grows where
  stay _ := ⟨List.prefix_rfl, by simp⟩
  next _ := ⟨List.prefix_rfl, by simp⟩
  refuse _ := ⟨by simp [report], by simp [report]⟩
  andThen h hl := ⟨h.1.trans hl.1, fun hg => Nat.lt_of_le_of_lt h.size_le (hl.2 hg)⟩
  goOn h := h
  drop h := ⟨h.1, by simp⟩

theorem grows_nestedIn (room : Nat) (strength : Precedence) :
    Keeps Grows ((nestedIn room).parse strength) :=
  Contract.nestedIn (C := fun _ => Grows) (fun _ => contract_grows) id room strength

/-- A run of a rule that reported nothing. -/
def Quiet (parser after : Parser) : Prop := after.reports = parser.reports

/-- What stood before and after quiet runs in a row was quiet in between. -/
theorem Quiet.of_grows {first middle last : Parser} {a b : Bool} (h : Quiet first last)
    (hf : Grows first a middle) (hl : Grows middle b last) :
    Quiet first middle ∧ Quiet middle last := by
  have heq : first.reports.toList = middle.reports.toList := by
    refine hf.1.eq_of_length (Nat.le_antisymm hf.1.length_le ?_)
    rw [← show last.reports = first.reports from h]
    exact hl.1.length_le
  have hm : middle.reports = first.reports := (Array.toList_inj.mp heq).symm
  exact ⟨hm, h.trans hm.symm⟩

end MonkeyFront.Parser
