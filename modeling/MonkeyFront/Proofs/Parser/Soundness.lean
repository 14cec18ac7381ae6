import MonkeyFront.Proofs.Grammar.First
import MonkeyFront.Proofs.Grammar.Strata
import MonkeyFront.Proofs.Parser.Contract
import MonkeyFront.Proofs.Parser.Run
import MonkeyFront.Proofs.Scanner.LongestMatch

/-!
# Soundness of the parser

A rule that yields a tree and reports nothing has gone over tokens that derive the tree. Skipping
tokens and dropping statements leave reports, so in a quiet run every token is part of the tree's
derivation. The loop over operators keeps its left operand in a stratum that is loose enough for the
operator to come: what binds tighter was taken by the operand before.
-/

namespace MonkeyFront.Parser

open Rule Grammar

/-- A run over tokens that derive a phrase, nested no deeper than there is room for. -/
def Reads (phrase : Phrase) (room : Nat) (parser after : Parser) : Prop :=
  ∃ nesting tokens, Derives phrase nesting tokens ∧ nesting ≤ room ∧ Readable tokens ∧
    parser.Spans tokens after

/-- What a quiet run of nested expressions has gone over. -/
structure Nested.Sound (nested : Nested) (room : Nat) : Prop where
  grows : ∀ strength, Keeps Grows (nested.parse strength)
  reads : ∀ {bound : Precedence} {parser after : Parser} {tree : Expression},
    nested.parse bound parser = (some tree, after) → Quiet parser after →
      ∃ stratum : Stratum, Stratum.Fits bound stratum ∧
        Reads (.expression stratum tree) room parser after ∧
        after.peekPrecedence.level ≤ bound.level

section Rules

variable {nested : Nested} {room : Nat} {start parser middle after : Parser}

/-- An expression read in a place of its own can be of any stratum. -/
theorem Nested.Sound.reads_equality (hn : nested.Sound room) {bound : Precedence}
    {tree : Expression} (h : nested.parse bound parser = (some tree, after))
    (hq : Quiet parser after) :
    Reads (.expression .equality tree) room parser after ∧
      after.peekPrecedence.level ≤ bound.level := by
  obtain ⟨stratum, -, ⟨nesting, tokens, hd, hle, hr, hs⟩, hp⟩ := hn.reads h hq
  exact ⟨⟨nesting, tokens, hd.loosen stratum.equality_le, hle, hr, hs⟩, hp⟩

/-! ## Statements -/

/-- A run over a statement. If no semicolon closed it, then no operator is next. -/
def ReadsStatement (tree : Statement) (room : Nat) (parser after : Parser) : Prop :=
  ∃ closed, Reads (.statement closed tree) room parser after ∧
    (closed = true ∨ after.peekPrecedence.level ≤ Precedence.lowest.level)

theorem reads_close {tree : Statement} (h : Reads (.statement false tree) room parser middle)
    (hp : middle.peekPrecedence.level ≤ Precedence.lowest.level) :
    ReadsStatement tree room parser (middle.pastOptional (.sign .semicolon)) := by
  obtain ⟨nesting, tokens, hd, hle, hr, hs⟩ := h
  cases hsemi : middle.peekIs (.sign .semicolon) with
  | true =>
      rw [pastOptional, hsemi, if_pos rfl]
      have hk := peekIs_iff.mp hsemi
      exact ⟨true, ⟨nesting, _, hd.closed hk, hle, by simp [hr, hk], hs.concat (by simp [hk])⟩,
        .inl rfl⟩
  | false =>
      rw [pastOptional, hsemi, if_neg (by simp)]
      exact ⟨false, ⟨nesting, tokens, hd, hle, hr, hs⟩, .inr hp⟩

theorem reads_binding (hn : nested.Sound room) {tree : Statement}
    (hk : parser.currentToken.kind = .keyword .letWord)
    (h : binding nested parser = (some tree, after)) (hq : Quiet parser after) :
    ReadsStatement tree room parser after := by
  simp only [binding, onGivingUp_eq_some, current_bind] at h
  obtain ⟨_, p, hp, h⟩ := bind_eq_some.mp h
  obtain ⟨hname, rfl⟩ := expect_eq_some.mp hp
  rw [identifier_bind] at h
  obtain ⟨_, p, hp, h⟩ := bind_eq_some.mp h
  obtain ⟨hassign, rfl⟩ := expect_eq_some.mp hp
  rw [skip_bind] at h
  obtain ⟨value, middle, hvalue, h⟩ := bind_eq_some.mp h
  rw [skipOptional_bind, pure_run] at h
  cases h
  have hmiddle : Quiet parser.advance.advance.advance middle := by simpa [Quiet] using hq
  obtain ⟨⟨nesting, tokens, hd, hle, hr, hs⟩, hpeek⟩ := hn.reads_equality hvalue hmiddle
  refine reads_close ⟨nesting, _, .binding hk hname hassign hd, hle, ?_, ?_⟩ hpeek
  · simp [hk, hname, hassign, hr]
  · exact .cons (by simp [hk]) (.cons (by simp [hname]) (.cons (by simp [hassign]) hs))

theorem reads_result (hn : nested.Sound room) {tree : Statement}
    (hk : parser.currentToken.kind = .keyword .returnWord)
    (h : result nested parser = (some tree, after)) (hq : Quiet parser after) :
    ReadsStatement tree room parser after := by
  simp only [result, onGivingUp_eq_some, current_bind, skip_bind] at h
  obtain ⟨value, middle, hvalue, h⟩ := bind_eq_some.mp h
  rw [skipOptional_bind, pure_run] at h
  cases h
  have hmiddle : Quiet parser.advance middle := by simpa [Quiet] using hq
  obtain ⟨⟨nesting, tokens, hd, hle, hr, hs⟩, hpeek⟩ := hn.reads_equality hvalue hmiddle
  refine reads_close ⟨nesting, _, .result hk hd, hle, ?_, ?_⟩ hpeek
  · simp [hk, hr]
  · exact .cons (by simp [hk]) hs

theorem reads_expressionStatement (hn : nested.Sound room) {tree : Statement}
    (h : expressionStatement nested parser = (some tree, after)) (hq : Quiet parser after) :
    ReadsStatement tree room parser after := by
  simp only [expressionStatement, current_bind] at h
  obtain ⟨value, middle, hvalue, h⟩ := bind_eq_some.mp h
  rw [skipOptional_bind, pure_run] at h
  cases h
  have hmiddle : Quiet parser middle := by simpa [Quiet] using hq
  obtain ⟨⟨nesting, tokens, hd, hle, hr, hs⟩, hpeek⟩ := hn.reads_equality hvalue hmiddle
  -- The token of the statement is the first that its expression was read from.
  obtain ⟨first, others, rfl⟩ : ∃ first others, tokens = first :: others := by
    cases tokens with
    | nil => simpa [Phrase.Starts] using hd.starts
    | cons first others => exact ⟨first, others, rfl⟩
  have hcurrent : parser.currentToken = first := currentToken_of_tokens hs.tokens_eq
  rw [hcurrent]
  exact reads_close ⟨nesting, _, .bare hd, hle, hr, hs⟩ hpeek

theorem reads_statement (hn : nested.Sound room) {tree : Statement}
    (h : statement nested parser = (some tree, after)) (hq : Quiet parser after) :
    ReadsStatement tree room parser after := by
  by_cases hl : parser.currentToken.kind = .keyword .letWord
  · rw [statement_of_let hl, onGivingUp_eq_some] at h
    exact reads_binding hn hl h hq
  by_cases hr : parser.currentToken.kind = .keyword .returnWord
  · rw [statement_of_return hr, onGivingUp_eq_some] at h
    exact reads_result hn hr h hq
  · rw [statement_of_other hl hr, onGivingUp_eq_some] at h
    exact reads_expressionStatement hn h hq

/-- A statement that is given up leaves a report. -/
theorem not_quiet_of_dropped (hn : nested.Sound room)
    (h : statement nested parser = (none, after)) : ¬ Quiet parser after := by
  intro hq
  rcases contract_grows.statement_cases hn.grows parser with ⟨value, last, he, -⟩ | ⟨last, he, hg⟩
  · rw [h] at he
    cases he
  · rw [h] at he
    cases he
    have hlt : parser.reports.size < last.reports.size := hg.2 rfl
    rw [show last.reports = parser.reports from hq] at hlt
    exact Nat.lt_irrefl _ hlt

theorem reads_statementOrGap (hn : nested.Sound room) {kept : Option Statement}
    (h : statementOrGap nested parser = (some kept, after)) (hq : Quiet parser after) :
    ∃ tree middle, kept = some tree ∧ after = middle.advance ∧
      ReadsStatement tree room parser middle := by
  rw [statementOrGap, attempt_bind, skip_bind, pure_run] at h
  cases hs : statement nested parser with
  | mk outcome middle =>
      rw [hs] at h
      cases h
      cases outcome with
      | none => exact absurd (show Quiet parser middle from hq) (not_quiet_of_dropped hn hs)
      | some tree => exact ⟨tree, middle, rfl, rfl, reads_statement hn hs hq⟩

/-- Where no operator is next, no call and no difference is. -/
theorem apart_of_peekPrecedence (h : parser.peekPrecedence.level ≤ Precedence.lowest.level)
    {tokens rest : List Token} (ht : parser.advance.tokens = tokens ++ rest) :
    ∀ token ∈ tokens.head?, token.kind ≠ .sign .leftParen ∧ token.kind ≠ .sign .minus := by
  intro token hmem
  have hpeek : parser.peekToken = token := by
    rw [peekToken_eq, ← tokens_advance, ht]
    cases tokens with
    | nil => simp at hmem
    | cons first others => simpa using hmem
  rw [peekPrecedence, hpeek] at h
  constructor <;> intro hk <;> rw [hk] at h <;> revert h <;> decide

theorem reads_statements (hn : nested.Sound room) {goOn : Parser → Bool}
    {takes : Takes goOn (statementOrGap nested)} {values : List (Option Statement)}
    (h : many goOn (statementOrGap nested) takes parser = (some values, after))
    (hq : Quiet parser after) :
    goOn after = false ∧ ∃ nesting tokens,
      Derives (.statements (values.filterMap id)) nesting tokens ∧ nesting ≤ room ∧
      Readable tokens ∧ parser.tokens = tokens ++ after.tokens := by
  have hgrows : Keeps Grows (statementOrGap nested) := contract_grows.statementOrGap hn.grows
  fun_induction many goOn (statementOrGap nested) takes parser generalizing values with
  | case1 | case2 => cases h
  | case3 parser hg kept middle hi others last hl ih =>
      cases h
      obtain ⟨hfirst, hrest⟩ := hq.of_grows (hgrows.of_some hi)
        ((contract_grows.many hgrows).of_some hl)
      obtain ⟨tree, p, rfl, rfl, closed, ⟨m, read, hd, hle, hr, hs⟩, hclosed⟩ :=
        reads_statementOrGap hn hi hfirst
      obtain ⟨hstop, n, more, hds, hles, hrs, ht⟩ := ih hl hrest
      refine ⟨hstop, max m n, read ++ more, ?_, by omega, by simp [hr, hrs], ?_⟩
      · exact hd.statements hds (hclosed.imp_right fun hp => apart_of_peekPrecedence hp ht)
      · rw [hs.tokens_eq, ht, List.append_assoc]
  | case4 parser hg =>
      cases h
      exact ⟨by simpa using hg, 0, [], .noStatements, Nat.zero_le _, readable_nil, rfl⟩

theorem reads_block (hn : nested.Sound room) {tree : Block}
    (hk : parser.currentToken.kind = .sign .leftBrace)
    (h : block nested parser = (some tree, after)) (hq : Quiet parser after) :
    Reads (.block tree) room parser after := by
  rw [block, current_bind, skip_bind] at h
  obtain ⟨values, middle, hm, h⟩ := bind_eq_some.mp h
  rw [see_bind] at h
  split at h
  · cases h
  next hne =>
    cases h
    obtain ⟨hstop, nesting, tokens, hd, hle, hr, ht⟩ := reads_statements hn hm hq
    -- The loop stopped before a closing brace or at the end, and the end was refused above.
    have hclose : after.currentToken.kind = .sign .rightBrace := by
      simp only [insideBlock, Bool.and_eq_false_iff, Bool.not_eq_false', currentIs_iff] at hstop
      exact hstop.resolve_right fun he => hne (currentIs_iff.mpr he)
    have hlast := @tokens_of_currentToken after (by simp [hclose])
    refine ⟨nesting, _, .block hk hd hclose, hle, by simp [hk, hclose, hr], ?_⟩
    refine ⟨parser.currentToken :: tokens, after.currentToken, after.advance.tokens, rfl, ?_, hlast⟩
    rw [tokens_of_currentToken (by simp [hk] : parser.currentToken.kind ≠ .eof), ht, hlast]
    simp

/-! ## Lists in parentheses -/

theorem readable_of_otherNames {names : List Identifier} {tokens : List Token}
    (h : OtherNames names tokens) : Readable tokens := by
  induction h with
  | none => exact readable_nil
  | more hc hn _ ih => simpa [hc, hn] using ih

theorem readable_of_names {names : List Identifier} {tokens : List Token}
    (h : Names names tokens) : Readable tokens := by
  cases h with
  | none => exact readable_nil
  | some hn others => simpa [hn] using readable_of_otherNames others

theorem reads_otherNames {names : List Identifier} {read : List Token}
    (h : many (peekIs (.sign .comma)) nextParameter takes_nextParameter parser =
      (some names, after))
    (hs : start.Spans read parser) :
    ∃ tokens, OtherNames names tokens ∧ start.Spans (read ++ tokens) after := by
  fun_induction many (peekIs (.sign .comma)) nextParameter takes_nextParameter parser
    generalizing names read with
  | case1 | case2 => cases h
  | case3 parser hg name middle hi others last hl ih =>
      cases h
      have hcomma := peekIs_iff.mp hg
      rw [nextParameter, skip_bind] at hi
      obtain ⟨_, p, hp, hi⟩ := bind_eq_some.mp hi
      obtain ⟨hname, rfl⟩ := expect_eq_some.mp hp
      cases hi
      have hnext := (hs.concat (by simp [hcomma])).concat (by simp [hname])
      obtain ⟨tokens, ht, hspan⟩ := ih hl hnext
      exact ⟨_, .more hcomma hname ht, by simpa using hspan⟩
  | case4 parser hg =>
      cases h
      exact ⟨[], .none, by simpa using hs⟩

theorem reads_parameters {names : List Identifier}
    (hk : parser.currentToken.kind = .sign .leftParen)
    (h : parameters parser = (some names, after)) :
    after.currentToken.kind = .sign .rightParen ∧ ∃ tokens, Names names tokens ∧
      parser.Spans (parser.currentToken :: tokens ++ [after.currentToken]) after := by
  have hopen : parser.Spans [parser.currentToken] parser := .current (by simp [hk])
  rw [parameters, see_bind] at h
  split at h
  next hclose =>
    rw [skip_bind, pure_run] at h
    cases h
    have hclose := peekIs_iff.mp hclose
    exact ⟨hclose, [], .none, hopen.concat (by simp [hclose])⟩
  next =>
    obtain ⟨_, p, hp, h⟩ := bind_eq_some.mp h
    obtain ⟨hname, rfl⟩ := expect_eq_some.mp hp
    rw [identifier_bind] at h
    obtain ⟨others, middle, hm, h⟩ := bind_eq_some.mp h
    obtain ⟨_, p, hp, h⟩ := bind_eq_some.mp h
    obtain ⟨hclose, rfl⟩ := expect_eq_some.mp hp
    cases h
    obtain ⟨tokens, ht, hs⟩ := reads_otherNames hm (hopen.concat (by simp [hname]))
    exact ⟨hclose, _, .some hname ht, by simpa using hs.concat (by simp [hclose])⟩

theorem reads_otherArguments (hn : nested.Sound room) {trees : List Expression} {read : List Token}
    (h : otherArguments nested parser = (some trees, after))
    (hq : Quiet parser after) (hs : start.Spans read parser) :
    ∃ nesting tokens, Derives (.otherArguments trees) nesting tokens ∧ nesting ≤ room ∧
      Readable tokens ∧ start.Spans (read ++ tokens) after := by
  have hgrows : Keeps Grows (nextArgument nested) := contract_grows.nextArgument hn.grows
  unfold otherArguments at h
  fun_induction many (peekIs (.sign .comma)) (nextArgument nested) (takes_nextArgument nested)
    parser generalizing trees read with
  | case1 | case2 => cases h
  | case3 parser hg tree middle hi others last hl ih =>
      cases h
      have hcomma := peekIs_iff.mp hg
      obtain ⟨hfirst, hrest⟩ := hq.of_grows (hgrows.of_some hi)
        ((contract_grows.many hgrows).of_some hl)
      rw [nextArgument, skip_bind, skip_bind] at hi
      obtain ⟨⟨m, tokens, hd, hle, hr, hspan⟩, -⟩ := hn.reads_equality hi hfirst
      have hnext := (hs.concat (by simp [hcomma])).trans hspan
      obtain ⟨n, more, hds, hles, hrs, hlast⟩ := ih hl hrest hnext
      exact ⟨max m n, _, .otherArguments hcomma hd hds, by omega, by simp [hcomma, hr, hrs],
        by simpa using hlast⟩
  | case4 parser hg =>
      cases h
      exact ⟨0, [], .noOtherArguments, Nat.zero_le _, readable_nil, by simpa using hs⟩

theorem reads_arguments (hn : nested.Sound room) {trees : List Expression}
    (hk : parser.currentToken.kind = .sign .leftParen)
    (h : arguments nested parser = (some trees, after)) (hq : Quiet parser after) :
    after.currentToken.kind = .sign .rightParen ∧ ∃ nesting tokens,
      Derives (.arguments trees) nesting tokens ∧ nesting ≤ room ∧ Readable tokens ∧
      parser.Spans (parser.currentToken :: tokens ++ [after.currentToken]) after := by
  have hopen : parser.Spans [parser.currentToken] parser := .current (by simp [hk])
  rw [arguments, see_bind] at h
  split at h
  next hclose =>
    rw [skip_bind, pure_run] at h
    cases h
    have hclose := peekIs_iff.mp hclose
    exact ⟨hclose, 0, [], .noArguments, Nat.zero_le _, readable_nil,
      hopen.concat (by simp [hclose])⟩
  next =>
    rw [skip_bind] at h
    obtain ⟨first, p, hfirst, h⟩ := bind_eq_some.mp h
    obtain ⟨others, middle, hm, h⟩ := bind_eq_some.mp h
    obtain ⟨_, q, hp, h⟩ := bind_eq_some.mp h
    obtain ⟨hclose, rfl⟩ := expect_eq_some.mp hp
    cases h
    have hmany : Keeps Grows (many (peekIs (.sign .comma)) (nextArgument nested)
        (takes_nextArgument nested)) := contract_grows.many (contract_grows.nextArgument hn.grows)
    have hquiet : Quiet parser.advance middle := hq
    obtain ⟨hq₁, hq₂⟩ := hquiet.of_grows ((hn.grows _).of_some hfirst) (hmany.of_some hm)
    obtain ⟨⟨m, tokens, hd, hle, hr, hspan⟩, -⟩ := hn.reads_equality hfirst hq₁
    obtain ⟨n, more, hds, hles, hrs, hlast⟩ := reads_otherArguments hn hm hq₂ (hopen.trans hspan)
    exact ⟨hclose, max m n, _, .arguments hd hds, by omega, by simp [hr, hrs],
      by simpa using hlast.concat (by simp [hclose])⟩

/-! ## Operands -/

/-- A run over the left operand of whatever operator comes next. -/
def ReadsLeft (bound : Precedence) (tree : Expression) (room : Nat) (parser after : Parser) :
    Prop :=
  ∃ stratum, Stratum.Fits bound stratum ∧ Reads (.expression stratum tree) room parser after ∧
    after.peekPrecedence.level ≤ stratum.strength.level

theorem ReadsLeft.of_call {bound : Precedence} {tree : Expression}
    (h : Reads (.expression .call tree) room parser after) :
    ReadsLeft bound tree room parser after :=
  ⟨.call, .inr (.inr rfl), h, after.peekPrecedence.level_le_call⟩

theorem reads_integer {tree : Expression} (hk : parser.currentToken.kind = .int)
    (h : integer parser = (some tree, after)) :
    Reads (.expression .call tree) (room + 1) parser after := by
  rw [integer, current_bind] at h
  cases hv : integerValue? parser.currentToken.literal with
  | none => simp [hv] at h
  | some value =>
      simp only [hv, pure_run] at h
      cases h
      obtain ⟨-, -, rfl, -⟩ := integerValue?_eq_some hv
      exact ⟨1, _, .integer hk, by omega, by simp [hv], .current (by simp [hk])⟩

theorem reads_unary (hn : nested.Sound room) {bound : Precedence} {tree : Expression}
    (hk : parser.currentToken.kind = .sign .bang ∨ parser.currentToken.kind = .sign .minus)
    (h : unary nested parser = (some tree, after)) (hq : Quiet parser after) :
    ReadsLeft bound tree (room + 1) parser after := by
  rw [unary, current_bind, skip_bind] at h
  obtain ⟨operand, middle, ho, h⟩ := bind_eq_some.mp h
  cases h
  obtain ⟨stratum, hfits, ⟨nesting, tokens, hd, hle, hr, hs⟩, hpeek⟩ := hn.reads ho hq
  have hloose : Stratum.unary.strength.level ≤ stratum.strength.level := by
    rcases hfits with hlt | rfl | rfl
    · exact Nat.le_of_lt hlt
    · exact Nat.le_refl _
    · decide
  have hunary := Derives.unary hk (hd.loosen hloose)
  refine ⟨.unary, .inr (.inl rfl), ⟨nesting + 1, _, hunary, by omega, ?_, ?_⟩, hpeek⟩
  · rcases hk with hk | hk <;> simp [hk, hr]
  · exact .cons (by rcases hk with hk | hk <;> simp [hk]) hs

theorem reads_group (hn : nested.Sound room) {tree : Expression}
    (hk : parser.currentToken.kind = .sign .leftParen)
    (h : group nested parser = (some tree, after)) (hq : Quiet parser after) :
    Reads (.expression .call tree) (room + 1) parser after := by
  rw [group, skip_bind] at h
  obtain ⟨inside, middle, hi, h⟩ := bind_eq_some.mp h
  obtain ⟨_, p, hp, h⟩ := bind_eq_some.mp h
  obtain ⟨hclose, rfl⟩ := expect_eq_some.mp hp
  cases h
  obtain ⟨⟨nesting, tokens, hd, hle, hr, hs⟩, -⟩ := hn.reads_equality hi hq
  refine ⟨nesting + 1, _, .group hk hd hclose, by omega, by simp [hk, hclose, hr], ?_⟩
  exact (Spans.cons (by simp [hk]) hs).concat (by simp [hclose])

theorem reads_function (hn : nested.Sound room) {tree : Expression}
    (hk : parser.currentToken.kind = .keyword .fnWord)
    (h : function nested parser = (some tree, after)) (hq : Quiet parser after) :
    Reads (.expression .call tree) (room + 1) parser after := by
  rw [function, current_bind] at h
  obtain ⟨_, p, hp, h⟩ := bind_eq_some.mp h
  obtain ⟨hopen, rfl⟩ := expect_eq_some.mp hp
  obtain ⟨names, middle, hm, h⟩ := bind_eq_some.mp h
  obtain ⟨_, p, hp, h⟩ := bind_eq_some.mp h
  obtain ⟨hbrace, rfl⟩ := expect_eq_some.mp hp
  obtain ⟨body, last, hb, h⟩ := bind_eq_some.mp h
  cases h
  have hquiet : Quiet parser.advance after := hq
  obtain ⟨-, hquiet⟩ := hquiet.of_grows (contract_grows.parameters.of_some hm).advance
    ((contract_grows.block hn.grows).of_some hb)
  obtain ⟨hclose, tokens, hnames, hs⟩ := reads_parameters hopen hm
  obtain ⟨nesting, more, hd, hle, hr, hbody⟩ := reads_block hn hbrace hb hquiet
  refine ⟨nesting + 1, _, .function hk hopen hnames hclose hd, by omega, ?_, ?_⟩
  · simp [hk, hopen, hclose, hr, readable_of_names hnames]
  · simpa using Spans.cons (by simp [hk]) (hs.trans hbody)

theorem reads_conditional (hn : nested.Sound room) {tree : Expression}
    (hk : parser.currentToken.kind = .keyword .ifWord)
    (h : conditional nested parser = (some tree, after)) (hq : Quiet parser after) :
    Reads (.expression .call tree) (room + 1) parser after := by
  rw [conditional, current_bind] at h
  obtain ⟨_, p, hp, h⟩ := bind_eq_some.mp h
  obtain ⟨hopen, rfl⟩ := expect_eq_some.mp hp
  rw [skip_bind] at h
  obtain ⟨condition, p₁, hcond, h⟩ := bind_eq_some.mp h
  obtain ⟨_, p, hp, h⟩ := bind_eq_some.mp h
  obtain ⟨hclose, rfl⟩ := expect_eq_some.mp hp
  obtain ⟨_, p, hp, h⟩ := bind_eq_some.mp h
  obtain ⟨hbrace, rfl⟩ := expect_eq_some.mp hp
  obtain ⟨consequence, p₂, hcons, h⟩ := bind_eq_some.mp h
  rw [see_bind] at h
  have hquiet : Quiet parser.advance.advance after := hq
  have hgrowsCond := ((hn.grows _).of_some hcond).advance.advance
  have hgrowsCons := (contract_grows.block hn.grows).of_some hcons
  have hgrowsTest := contract_grows.andThen hgrowsCond hgrowsCons
  split at h
  next helse =>
    rw [skip_bind] at h
    obtain ⟨_, p, hp, h⟩ := bind_eq_some.mp h
    obtain ⟨hbrace', rfl⟩ := expect_eq_some.mp hp
    obtain ⟨alternative, p₃, halt, h⟩ := bind_eq_some.mp h
    cases h
    have helse := peekIs_iff.mp helse
    have hgrowsAlt := (contract_grows.block hn.grows).of_some halt
    obtain ⟨hq₂, hq₃⟩ := hquiet.of_grows hgrowsTest.advance.advance hgrowsAlt
    obtain ⟨hq₁, hq₂⟩ := hq₂.of_grows hgrowsCond hgrowsCons
    obtain ⟨⟨m, tokens, hd, hle, hr, hs⟩, -⟩ := hn.reads_equality hcond hq₁
    obtain ⟨n, more, hd', hle', hr', hs'⟩ := reads_block hn hbrace hcons hq₂
    obtain ⟨k, others, hd'', hle'', hr'', hs''⟩ := reads_block hn hbrace' halt hq₃
    refine ⟨_, _, .alternative hk hopen hd hclose hd' helse hd'', by omega, ?_, ?_⟩
    · simp [hk, hopen, hclose, helse, hr, hr', hr'']
    · have hhead := Spans.cons (by simp [hk]) (.cons (by simp [hopen]) hs)
      have htest := (hhead.concat (by simp [hclose])).trans hs'
      simpa using (htest.concat (by simp [helse])).trans hs''
  next =>
    cases h
    obtain ⟨hq₁, hq₂⟩ := hquiet.of_grows hgrowsCond hgrowsCons
    obtain ⟨⟨m, tokens, hd, hle, hr, hs⟩, -⟩ := hn.reads_equality hcond hq₁
    obtain ⟨n, more, hd', hle', hr', hs'⟩ := reads_block hn hbrace hcons hq₂
    refine ⟨_, _, .conditional hk hopen hd hclose hd', by omega, ?_, ?_⟩
    · simp [hk, hopen, hclose, hr, hr']
    · have hhead := Spans.cons (by simp [hk]) (.cons (by simp [hopen]) hs)
      simpa using (hhead.concat (by simp [hclose])).trans hs'

theorem reads_boolean {tree : Expression} {word : Keyword}
    (hk : parser.currentToken.kind = .keyword word) (hw : word = .trueWord ∨ word = .falseWord)
    (h : boolean parser = (some tree, after)) :
    Reads (.expression .call tree) (room + 1) parser after := by
  rw [boolean, current_bind, pure_run, hk] at h
  cases h
  have hspan : parser.Spans [parser.currentToken] parser := .current (by simp [hk])
  rcases hw with rfl | rfl
  · exact ⟨1, _, .trueWord hk, by omega, by simp [hk], hspan⟩
  · exact ⟨1, _, .falseWord hk, by omega, by simp [hk], hspan⟩

theorem reads_operand (hn : nested.Sound room) {bound : Precedence} {tree : Expression}
    (h : operand nested parser = (some tree, after)) (hq : Quiet parser after) :
    ReadsLeft bound tree (room + 1) parser after := by
  rw [operand_run] at h
  split at h
  next hk =>
    cases h
    exact .of_call ⟨1, _, .name hk, by omega, by simp [hk], .current (by simp [hk])⟩
  next hk => exact .of_call (reads_integer hk h)
  next hk => exact .of_call (reads_boolean hk (.inl rfl) h)
  next hk => exact .of_call (reads_boolean hk (.inr rfl) h)
  next hk => exact reads_unary hn (.inl hk) h hq
  next hk => exact reads_unary hn (.inr hk) h hq
  next hk => exact .of_call (reads_group hn hk h hq)
  next hk => exact .of_call (reads_conditional hn hk h hq)
  next hk => exact .of_call (reads_function hn hk h hq)
  next => cases h

/-! ## Operators -/

theorem reads_call (hn : nested.Sound room) {bound : Precedence} {left tree : Expression}
    (hl : ReadsLeft bound left (room + 1) start parser)
    (hk : parser.advance.currentToken.kind = .sign .leftParen)
    (h : call nested left parser.advance = (some tree, after)) (hq : Quiet parser after) :
    ReadsLeft bound tree (room + 1) start after := by
  obtain ⟨stratum, -, ⟨m, tokens, hd, hle, hr, hs⟩, hpeek⟩ := hl
  -- Only a callee can have a parenthesis after it that was not taken yet.
  obtain rfl : stratum = .call := by
    have hcall : parser.peekPrecedence = .call := by
      rw [← currentPrecedence_advance, currentPrecedence, hk]
      rfl
    rw [hcall] at hpeek
    exact Stratum.strength_injective (Nat.le_antisymm stratum.strength.level_le_call hpeek)
  rw [call, current_bind] at h
  obtain ⟨arguments, last, ha, h⟩ := bind_eq_some.mp h
  cases h
  obtain ⟨hclose, n, more, hds, hles, hrs, hspan⟩ := reads_arguments hn hk ha hq
  refine ⟨.call, .inr (.inr rfl), ⟨max m (n + 1), _, .call hd hk hds hclose, by omega, ?_, ?_⟩,
    after.peekPrecedence.level_le_call⟩
  · simp [hr, hk, hrs, hclose]
  · simpa using hs.trans hspan

theorem reads_binary (hn : nested.Sound room) {bound : Precedence} {left tree : Expression}
    (hl : ReadsLeft bound left (room + 1) start parser)
    (hg : parser.bindsTighter bound = true)
    (hk : parser.advance.currentToken.kind ≠ .sign .leftParen)
    (h : binary nested left parser.advance = (some tree, after)) (hq : Quiet parser after) :
    ReadsLeft bound tree (room + 1) start after := by
  obtain ⟨stratum, -, ⟨m, tokens, hd, hle, hr, hs⟩, hpeek⟩ := hl
  have hlt : bound < parser.advance.currentPrecedence := lt_advance_of_bindsTighter hg
  obtain ⟨sign, hsign, hstrength⟩ := Kind.exists_sign hlt
  obtain ⟨own, hmem, hown⟩ := Stratum.exists_mem_operators hstrength (by simpa [hsign] using hk)
  rw [binary, current_bind, see_bind, skip_bind, currentPrecedence, ← hown] at h
  obtain ⟨right, last, hright, h⟩ := bind_eq_some.mp h
  cases h
  obtain ⟨tighter, hfits, ⟨n, more, hds, hles, hrs, hspan⟩, hnext⟩ := hn.reads hright hq
  -- The left operand left this operator to the loop, so it is of a stratum at least as tight.
  refine ⟨own, .inl (hown ▸ hlt), ⟨max m (n + 1), _, .binary (hd.loosen ?_) hsign hmem
    (hds.loosen (Stratum.next_le_of_fits hmem hfits)), by omega, ?_, ?_⟩, hnext⟩
  · rw [hown]
    rwa [← currentPrecedence_advance] at hpeek
  · simp [hr, hsign, hrs]
  · exact hs.trans (.cons (by simp [hsign]) hspan)

/-- One operator and what is to its right keep the left operand one that was read. -/
theorem reads_continued (hn : nested.Sound room) {bound : Precedence} {left tree : Expression}
    (hl : ReadsLeft bound left (room + 1) start parser) (hg : parser.bindsTighter bound = true)
    (h : continued nested left parser = (some tree, after)) (hq : Quiet parser after) :
    ReadsLeft bound tree (room + 1) start after := by
  rw [continued, skip_bind, see_bind] at h
  split at h
  next hk => exact reads_call hn hl (currentIs_iff.mp hk) h hq
  next hk => exact reads_binary hn hl hg (fun hp => hk (currentIs_iff.mpr hp)) h hq

theorem reads_climb (hn : nested.Sound room) {bound : Precedence} {left tree : Expression}
    (hl : ReadsLeft bound left (room + 1) start parser)
    (h : climb nested bound left parser = (some tree, after)) (hq : Quiet parser after) :
    ReadsLeft bound tree (room + 1) start after ∧ after.bindsTighter bound = false := by
  have hgrows (value : Expression) : Keeps Grows (continued nested value) :=
    contract_grows.continued hn.grows value
  unfold climb at h
  fun_induction fold (bindsTighter bound) (continued nested) (takes_continued nested bound) left
    parser with
  | case1 => cases h
  | case2 left parser hg next middle hs ih =>
      obtain ⟨hfirst, hrest⟩ := hq.of_grows ((hgrows left).of_some hs)
        ((contract_grows.fold hgrows next).of_some h)
      exact ih (reads_continued hn hl hg hs hfirst) h hrest
  | case3 left parser hg =>
      cases h
      exact ⟨hl, by simpa using hg⟩

/-! ## Levels -/

theorem reads_level (hn : nested.Sound room) {bound : Precedence} {tree : Expression}
    (h : level nested bound parser = (some tree, after)) (hq : Quiet parser after) :
    ReadsLeft bound tree (room + 1) parser after ∧ after.bindsTighter bound = false := by
  obtain ⟨left, middle, ho, hc⟩ := bind_eq_some.mp h
  obtain ⟨hfirst, hrest⟩ := hq.of_grows ((contract_grows.operand hn.grows).of_some ho)
    ((contract_grows.climb hn.grows bound left).of_some hc)
  exact reads_climb hn (reads_operand hn ho hfirst) hc hrest

end Rules

/-- With any number of levels left, quiet runs of nested expressions read what they yield. -/
theorem sound_nestedIn (room : Nat) : (nestedIn room).Sound room := by
  induction room with
  | zero => exact ⟨grows_nestedIn 0, fun h _ => by cases h⟩
  | succ room ih =>
      refine ⟨grows_nestedIn (room + 1), ?_⟩
      intro bound parser after tree h hq
      obtain ⟨last, hlevel, rfl⟩ := nestedIn_eq_some.mp h
      obtain ⟨⟨stratum, hfits, hreads, -⟩, hstop⟩ := reads_level ih hlevel hq
      exact ⟨stratum, hfits, hreads, bindsTighter_eq_false_iff.mp hstop⟩

/-! ## Sources -/

/-- Nothing but the end of the tokens stops the statements of a source. -/
theorem tokens_eq_nil_of_suffix (source : String) {parser : Parser}
    (hs : parser.tokens <:+ (ofSource source).tokens) (hstop : parser.beforeEnd = false) :
    parser.tokens = [] := by
  cases ht : parser.tokens with
  | nil => rfl
  | cons first others =>
      have hk : first.kind = .eof := by
        rw [← currentToken_of_tokens ht]
        simpa [beforeEnd, currentIs_iff] using hstop
      have hmem : first ∈ (lexemesOf source).map (·.token) := hs.mem (by simp [ht])
      obtain ⟨lexeme, hl, rfl⟩ := List.mem_map.mp hmem
      exact absurd hk (Scanner.kind_ne_eof_of_mem_drain _ lexeme hl)

/-- A quiet run over a source has read all of it. -/
theorem reads_program {source : String} {room : Nat} {tree : Program} {after : Parser}
    (h : program (nestedIn room) (ofSource source) = (some tree, after))
    (hq : Quiet (ofSource source) after) :
    ∃ nesting tokens, Derives (.statements tree.statements) nesting tokens ∧
      nesting ≤ room ∧ Readable tokens ∧ tokenize source = tokens ++ [Token.eof] := by
  rw [program] at h
  obtain ⟨values, last, hmany, hlast⟩ := bind_eq_some.mp h
  cases hlast
  obtain ⟨hstop, nesting, tokens, hd, hle, hr, ht⟩ :=
    reads_statements (sound_nestedIn room) hmany hq
  have hend := tokens_eq_nil_of_suffix source ⟨tokens, ht.symm⟩ hstop
  refine ⟨nesting, tokens, hd, hle, hr, ?_⟩
  rw [tokens_ofSource, ht, hend, List.append_nil]

/-- A source that leaves no report is read as a whole. -/
theorem reads_source {source : String} (h : (parse source).errors = []) :
    ∃ nesting tokens, Derives (.statements (parse source).program.statements) nesting tokens ∧
      nesting ≤ maxDepth ∧ Readable tokens ∧ tokenize source = tokens ++ [Token.eof] := by
  obtain ⟨values, after, -, hrun⟩ := program_run (nestedIn maxDepth) (ofSource source)
  rw [parse_of_run hrun] at h ⊢
  have hq : Quiet (ofSource source) after := by
    have : after.reports.toList = [] := by simpa [Parsed.errors] using h
    exact Array.toList_inj.mp this
  exact reads_program hrun hq

end MonkeyFront.Parser

namespace MonkeyFront

open Grammar

/-- What leaves no report derives the program as a whole, so an illegal token leaves one. -/
theorem parse_sound (source : String) :
    ((parse source).errors = [] → ∃ nesting tokens, tokenize source = tokens ++ [Token.eof] ∧
      Derives (.statements (parse source).program.statements) nesting tokens) ∧
    ((∃ token ∈ tokenize source, token.kind = .illegal) → (parse source).errors ≠ []) := by
  constructor
  · intro h
    obtain ⟨nesting, tokens, hd, -, -, ht⟩ := Parser.reads_source h
    exact ⟨nesting, tokens, ht, hd⟩
  · rintro ⟨token, hmem, hk⟩ h
    obtain ⟨nesting, tokens, hd, -, -, ht⟩ := Parser.reads_source h
    rw [ht, List.mem_append, List.mem_singleton] at hmem
    rcases hmem with hmem | rfl
    · have := hd.isTerminal token hmem
      simp [hk, Kind.isTerminal] at this
    · simp [Token.eof] at hk

theorem parse_sound_binding :
    (parse "let x = -5;").errors = [] ∧
    (∃ nesting tokens, tokenize "let x = -5;" = tokens ++ [Token.eof] ∧
      Derives (.statements (parse "let x = -5;").program.statements) nesting tokens) ∧
    (parse "let x = 5 @").errors ≠ [] :=
  ⟨by decide +kernel, (parse_sound _).1 (by decide +kernel),
    (parse_sound _).2 (by decide +kernel)⟩

end MonkeyFront
