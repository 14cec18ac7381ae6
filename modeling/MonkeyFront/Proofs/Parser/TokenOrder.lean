import MonkeyFront.Proofs.Grammar.Strata
import MonkeyFront.Proofs.Parser.Calls
import MonkeyFront.Proofs.Parser.Run
import MonkeyFront.Proofs.Tree.Yield

/-!
# Trees keep the order of the tokens

A rule that yields a tree has gone over the tokens of the tree in their order, each of them once.
What it skipped, and what it gave up in a block on the way, lies between them: a statement that is
given up has only moved the parser on, so none of its tokens can turn up in a tree that is kept.
-/

namespace MonkeyFront.Parser

open Rule Grammar

/-- The run went over some tokens in this order, among others. The token that it ended on was the
last one it went over. -/
def Uses (parser : Parser) (own : List Token) (after : Parser) : Prop :=
  (own ++ after.advance.tokens).Sublist parser.tokens

theorem sublist_advance (parser : Parser) : parser.advance.tokens.Sublist parser.tokens := by
  rw [tokens_advance]
  exact List.tail_sublist _

namespace Uses

variable {parser middle after : Parser} {own more : List Token}

theorem refl (parser : Parser) : parser.Uses [] parser := sublist_advance parser

theorem current (h : parser.currentToken.kind ≠ .eof) :
    parser.Uses [parser.currentToken] parser := by
  simp only [Uses, List.singleton_append, ← tokens_of_currentToken h, List.Sublist.refl]

theorem trans (h : parser.Uses own middle) (hm : middle.advance.Uses more after) :
    parser.Uses (own ++ more) after := by
  rw [Uses, List.append_assoc]
  exact (hm.append_left own).trans h

theorem cons (h : parser.currentToken.kind ≠ .eof) (hm : parser.advance.Uses more after) :
    parser.Uses (parser.currentToken :: more) after :=
  (current h).trans hm

/-- Tokens before a run need not be used. -/
theorem later (h : parser.advance.Uses own after) : parser.Uses own after :=
  List.Sublist.trans h (sublist_advance parser)

/-- Tokens after a run need not be used. -/
theorem advance (h : parser.Uses own after) : parser.Uses own after.advance :=
  ((sublist_advance after.advance).append_left own).trans h

theorem pastOptional (h : parser.Uses own after) (kind : Kind) :
    parser.Uses own (after.pastOptional kind) := by
  unfold Parser.pastOptional
  split
  · exact h.advance
  · exact h

end Uses

/-- A loop uses what its items use, one after the other. What of the tokens to come is in view may
start at the parser or behind it. -/
theorem sublist_many {α : Type} {goOn : Parser → Bool} {item : Rule α} {takes : Takes goOn item}
    (view : Parser → List Token) (yield : α → List Token)
    (h : ∀ {parser after value}, goOn parser = true → item parser = (some value, after) →
      (yield value ++ view after).Sublist (view parser))
    {parser after : Parser} {values : List α}
    (hrun : many goOn item takes parser = (some values, after)) :
    (values.flatMap yield ++ view after).Sublist (view parser) := by
  fun_induction many goOn item takes parser generalizing values with
  | case1 | case2 => cases hrun
  | case3 parser hg value middle hi others last hl ih =>
      cases hrun
      rw [List.flatMap_cons, List.append_assoc]
      exact ((ih hl).append_left _).trans (h hg hi)
  | case4 parser hg =>
      cases hrun
      exact List.Sublist.refl _

/-- What is known of nested expressions: they give no token back, and their trees keep the order. -/
structure Nested.Orderly (nested : Nested) (room : Nat) : Prop where
  within : ∀ strength, Keeps (fun first _ last => Within room first last) (nested.parse strength)
  uses : ∀ {bound : Precedence} {parser after : Parser} {tree : Expression},
    nested.parse bound parser = (some tree, after) → parser.Uses tree.yield after

section Rules

variable {nested : Nested} {room : Nat} {start parser after : Parser}

/-! ## Statements -/

theorem uses_binding (hn : nested.Orderly room) {tree : Statement}
    (hk : parser.currentToken.kind = .keyword .letWord)
    (h : binding nested parser = (some tree, after)) : parser.Uses tree.yield after := by
  simp only [binding, onGivingUp_eq_some, current_bind] at h
  obtain ⟨_, p, hp, h⟩ := bind_eq_some.mp h
  obtain ⟨hname, rfl⟩ := expect_eq_some.mp hp
  rw [identifier_bind] at h
  obtain ⟨_, p, hp, h⟩ := bind_eq_some.mp h
  obtain ⟨-, rfl⟩ := expect_eq_some.mp hp
  rw [skip_bind] at h
  obtain ⟨value, middle, hvalue, h⟩ := bind_eq_some.mp h
  rw [skipOptional_bind, pure_run] at h
  cases h
  have hbound : parser.advance.Uses (parser.advance.currentToken :: value.yield) middle :=
    .cons (by simp [hname]) (hn.uses hvalue).later
  exact (Uses.cons (by simp [hk]) hbound).pastOptional _

theorem uses_result (hn : nested.Orderly room) {tree : Statement}
    (hk : parser.currentToken.kind = .keyword .returnWord)
    (h : result nested parser = (some tree, after)) : parser.Uses tree.yield after := by
  simp only [result, onGivingUp_eq_some, current_bind, skip_bind] at h
  obtain ⟨value, middle, hvalue, h⟩ := bind_eq_some.mp h
  rw [skipOptional_bind, pure_run] at h
  cases h
  exact (Uses.cons (by simp [hk]) (hn.uses hvalue)).pastOptional _

theorem uses_expressionStatement (hn : nested.Orderly room) {tree : Statement}
    (h : expressionStatement nested parser = (some tree, after)) :
    parser.Uses tree.yield after := by
  simp only [expressionStatement, current_bind] at h
  obtain ⟨value, middle, hvalue, h⟩ := bind_eq_some.mp h
  rw [skipOptional_bind, pure_run] at h
  cases h
  exact (hn.uses hvalue).pastOptional _

theorem uses_statement (hn : nested.Orderly room) {tree : Statement}
    (h : statement nested parser = (some tree, after)) : parser.Uses tree.yield after := by
  by_cases hl : parser.currentToken.kind = .keyword .letWord
  · rw [statement_of_let hl, onGivingUp_eq_some] at h
    exact uses_binding hn hl h
  by_cases hr : parser.currentToken.kind = .keyword .returnWord
  · rw [statement_of_return hr, onGivingUp_eq_some] at h
    exact uses_result hn hr h
  · rw [statement_of_other hl hr, onGivingUp_eq_some] at h
    exact uses_expressionStatement hn h

/-- Behind a statement the parser stands on the token after it. A statement that is given up has
used nothing, and what it went over is gone. -/
theorem sublist_statementOrGap (hn : nested.Orderly room) {kept : Option Statement}
    (h : statementOrGap nested parser = (some kept, after)) :
    (kept.elim [] Statement.yield ++ after.tokens).Sublist parser.tokens := by
  rw [statementOrGap, attempt_bind, skip_bind, pure_run] at h
  have hwithin := (contract_within room).statement hn.within parser
  cases hs : statement nested parser with
  | mk outcome middle =>
      rw [hs] at h hwithin
      cases h
      cases outcome with
      | none =>
          have hsuffix : middle.tokens <:+ parser.tokens := hwithin.upcoming.map _
          exact (sublist_advance middle).trans hsuffix.sublist
      | some tree => exact uses_statement hn hs

theorem sublist_statements (hn : nested.Orderly room) {goOn : Parser → Bool}
    {takes : Takes goOn (statementOrGap nested)} {values : List (Option Statement)}
    (h : many goOn (statementOrGap nested) takes parser = (some values, after)) :
    (Statement.yieldEach (values.filterMap id) ++ after.tokens).Sublist parser.tokens := by
  rw [Statement.yieldEach_filterMap]
  exact sublist_many _ _ (fun _ hi => sublist_statementOrGap hn hi) h

theorem uses_block (hn : nested.Orderly room) {tree : Block}
    (hk : parser.currentToken.kind = .sign .leftBrace)
    (h : block nested parser = (some tree, after)) : parser.Uses tree.yield after := by
  rw [block, current_bind, skip_bind] at h
  obtain ⟨values, middle, hm, h⟩ := bind_eq_some.mp h
  rw [see_bind] at h
  split at h
  · cases h
  · cases h
    have hrow : parser.advance.Uses (Statement.yieldEach (values.filterMap id)) after :=
      ((sublist_advance after).append_left _).trans (sublist_statements hn hm)
    exact .cons (by simp [hk]) hrow

/-! ## Lists in parentheses -/

/-- After the opening parenthesis come the names, whose list ends on the closing one. -/
theorem uses_parameters {names : List Identifier}
    (h : parameters parser = (some names, after)) :
    parser.advance.Uses (names.map (·.token)) after := by
  rw [parameters, see_bind] at h
  split at h
  · rw [skip_bind, pure_run] at h
    cases h
    exact .refl _
  · obtain ⟨_, p, hp, h⟩ := bind_eq_some.mp h
    obtain ⟨hname, rfl⟩ := expect_eq_some.mp hp
    rw [identifier_bind] at h
    obtain ⟨others, middle, hm, h⟩ := bind_eq_some.mp h
    obtain ⟨_, p, hp, h⟩ := bind_eq_some.mp h
    obtain ⟨-, rfl⟩ := expect_eq_some.mp hp
    cases h
    have hnext {parser after : Parser} {name : Identifier}
        (hi : nextParameter parser = (some name, after)) :
        ([name.token] ++ after.advance.tokens).Sublist parser.advance.tokens := by
      rw [nextParameter, skip_bind] at hi
      obtain ⟨_, p, hp, hi⟩ := bind_eq_some.mp hi
      obtain ⟨hname, rfl⟩ := expect_eq_some.mp hp
      cases hi
      exact (Uses.current (by simp [hname])).later
    have hothers := sublist_many (fun parser => parser.advance.tokens)
      (fun name => [name.token]) (fun _ hi => hnext hi) hm
    rw [← List.map_eq_flatMap] at hothers
    exact (Uses.cons (by simp [hname]) hothers).advance

theorem uses_arguments (hn : nested.Orderly room) {trees : List Expression}
    (h : arguments nested parser = (some trees, after)) :
    parser.advance.Uses (Expression.yieldEach trees) after := by
  rw [arguments, see_bind] at h
  split at h
  · rw [skip_bind, pure_run] at h
    cases h
    exact .refl _
  · rw [skip_bind] at h
    obtain ⟨first, p, hfirst, h⟩ := bind_eq_some.mp h
    obtain ⟨others, middle, hm, h⟩ := bind_eq_some.mp h
    obtain ⟨_, q, hp, h⟩ := bind_eq_some.mp h
    obtain ⟨-, rfl⟩ := expect_eq_some.mp hp
    cases h
    have hmany := sublist_many (fun parser => parser.advance.tokens) Expression.yield
      (fun _ hi => (hn.uses hi).later) hm
    rw [← Expression.yieldEach_eq] at hmany
    exact ((hn.uses hfirst).trans hmany).advance

/-! ## Operands -/

theorem uses_integer {tree : Expression} (hk : parser.currentToken.kind = .int)
    (h : integer parser = (some tree, after)) : parser.Uses tree.yield after := by
  rw [integer, current_bind] at h
  cases hv : integerValue? parser.currentToken.literal with
  | none => simp [hv] at h
  | some value =>
      simp only [hv, pure_run] at h
      cases h
      exact .current (by simp [hk])

theorem uses_unary (hn : nested.Orderly room) {tree : Expression}
    (hk : parser.currentToken.kind ≠ .eof)
    (h : unary nested parser = (some tree, after)) : parser.Uses tree.yield after := by
  rw [unary, current_bind, skip_bind] at h
  obtain ⟨operand, middle, ho, h⟩ := bind_eq_some.mp h
  cases h
  exact .cons hk (hn.uses ho)

theorem uses_group (hn : nested.Orderly room) {tree : Expression}
    (h : group nested parser = (some tree, after)) : parser.Uses tree.yield after := by
  rw [group, skip_bind] at h
  obtain ⟨inside, middle, hi, h⟩ := bind_eq_some.mp h
  obtain ⟨_, p, hp, h⟩ := bind_eq_some.mp h
  obtain ⟨-, rfl⟩ := expect_eq_some.mp hp
  cases h
  exact (hn.uses hi).later.advance

theorem uses_function (hn : nested.Orderly room) {tree : Expression}
    (hk : parser.currentToken.kind = .keyword .fnWord)
    (h : function nested parser = (some tree, after)) : parser.Uses tree.yield after := by
  rw [function, current_bind] at h
  obtain ⟨_, p, hp, h⟩ := bind_eq_some.mp h
  obtain ⟨-, rfl⟩ := expect_eq_some.mp hp
  obtain ⟨names, middle, hm, h⟩ := bind_eq_some.mp h
  obtain ⟨_, p, hp, h⟩ := bind_eq_some.mp h
  obtain ⟨hbrace, rfl⟩ := expect_eq_some.mp hp
  obtain ⟨body, last, hb, h⟩ := bind_eq_some.mp h
  cases h
  exact .cons (by simp [hk]) ((uses_parameters hm).later.trans (uses_block hn hbrace hb))

theorem uses_conditional (hn : nested.Orderly room) {tree : Expression}
    (hk : parser.currentToken.kind = .keyword .ifWord)
    (h : conditional nested parser = (some tree, after)) : parser.Uses tree.yield after := by
  rw [conditional, current_bind] at h
  obtain ⟨_, p, hp, h⟩ := bind_eq_some.mp h
  obtain ⟨-, rfl⟩ := expect_eq_some.mp hp
  rw [skip_bind] at h
  obtain ⟨condition, p₁, hcond, h⟩ := bind_eq_some.mp h
  obtain ⟨_, p, hp, h⟩ := bind_eq_some.mp h
  obtain ⟨-, rfl⟩ := expect_eq_some.mp hp
  obtain ⟨_, p, hp, h⟩ := bind_eq_some.mp h
  obtain ⟨hbrace, rfl⟩ := expect_eq_some.mp hp
  obtain ⟨consequence, p₂, hcons, h⟩ := bind_eq_some.mp h
  rw [see_bind] at h
  have htest : parser.Uses (parser.currentToken :: condition.yield) p₁.advance :=
    (Uses.cons (by simp [hk]) (hn.uses hcond).later).advance
  have hfirst := htest.trans (uses_block hn hbrace hcons)
  split at h
  · rw [skip_bind] at h
    obtain ⟨_, p, hp, h⟩ := bind_eq_some.mp h
    obtain ⟨hbrace', rfl⟩ := expect_eq_some.mp hp
    obtain ⟨alternative, p₃, halt, h⟩ := bind_eq_some.mp h
    cases h
    exact hfirst.advance.trans (uses_block hn hbrace' halt)
  · cases h
    exact hfirst

theorem uses_operand (hn : nested.Orderly room) {tree : Expression}
    (h : operand nested parser = (some tree, after)) : parser.Uses tree.yield after := by
  rw [operand_run] at h
  split at h
  next hk => cases h; exact .current (by simp [hk])
  next hk => exact uses_integer hk h
  next hk => cases h; exact .current (by simp [hk])
  next hk => cases h; exact .current (by simp [hk])
  next hk => exact uses_unary hn (by simp [hk]) h
  next hk => exact uses_unary hn (by simp [hk]) h
  next => exact uses_group hn h
  next hk => exact uses_conditional hn hk h
  next hk => exact uses_function hn hk h
  next => cases h

/-! ## Operators -/

theorem uses_continued (hn : nested.Orderly room) {bound : Precedence} {left tree : Expression}
    (hl : start.Uses left.yield parser) (hg : parser.bindsTighter bound = true)
    (h : continued nested left parser = (some tree, after)) : start.Uses tree.yield after := by
  have hlt : bound < parser.advance.currentPrecedence := lt_advance_of_bindsTighter hg
  obtain ⟨sign, hsign, -⟩ := Kind.exists_sign hlt
  have hkind : parser.advance.currentToken.kind ≠ .eof := by simp [hsign]
  rw [continued, skip_bind, see_bind] at h
  split at h
  · rw [call, current_bind] at h
    obtain ⟨arguments, last, ha, h⟩ := bind_eq_some.mp h
    cases h
    exact hl.trans (.cons hkind (uses_arguments hn ha))
  · rw [binary, current_bind, see_bind, skip_bind] at h
    obtain ⟨right, last, hright, h⟩ := bind_eq_some.mp h
    cases h
    exact hl.trans (.cons hkind (hn.uses hright))

theorem uses_climb (hn : nested.Orderly room) {bound : Precedence} {left tree : Expression}
    (hl : start.Uses left.yield parser)
    (h : climb nested bound left parser = (some tree, after)) : start.Uses tree.yield after := by
  unfold climb at h
  fun_induction fold (bindsTighter bound) (continued nested) (takes_continued nested bound) left
    parser with
  | case1 => cases h
  | case2 left parser hg next middle hs ih => exact ih (uses_continued hn hl hg hs) h
  | case3 => cases h; exact hl

theorem uses_level (hn : nested.Orderly room) {bound : Precedence} {tree : Expression}
    (h : level nested bound parser = (some tree, after)) : parser.Uses tree.yield after := by
  obtain ⟨left, middle, ho, hc⟩ := bind_eq_some.mp h
  exact uses_climb hn (uses_operand hn ho) hc

end Rules

/-- However many levels may still be opened, their trees keep the order of the tokens. -/
theorem orderly_nestedIn (room : Nat) : (nestedIn room).Orderly room := by
  induction room with
  | zero => exact ⟨within_nestedIn 0, fun h => by cases h⟩
  | succ room ih =>
      refine ⟨within_nestedIn (room + 1), ?_⟩
      intro bound parser after tree h
      obtain ⟨last, hlevel, rfl⟩ := nestedIn_eq_some.mp h
      have hinside : parser.enter.Uses tree.yield last := uses_level ih hlevel
      exact hinside

end MonkeyFront.Parser

namespace MonkeyFront

/-- The tokens that the program keeps stand in the source in the same order, each at a place of its
own, whatever was malformed and left out between them. -/
theorem yield_sublist_tokenize (source : String) :
    (parse source).program.yield.Sublist (tokenize source) := by
  obtain ⟨values, after, hm, hrun⟩ :=
    Parser.program_run (Parser.nestedIn Parser.maxDepth) (Parser.ofSource source)
  have hrow := Parser.sublist_statements (Parser.orderly_nestedIn Parser.maxDepth) hm
  rw [Parser.parse_of_run hrun, Parser.tokens_ofSource]
  exact ((List.sublist_append_left _ _).trans hrow).trans (List.sublist_append_left _ _)

/-- The binding without a name is given up, inside a function that is kept. -/
example : ((parse "fn(x) { let = 1; x }(2)").program.yield.map (·.literal)) =
    ["fn", "x", "\x7b", "x", "(", "2"] := by
  decide +kernel

end MonkeyFront
