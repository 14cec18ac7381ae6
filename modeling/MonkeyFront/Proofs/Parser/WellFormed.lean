import MonkeyFront.Proofs.Grammar.Strata
import MonkeyFront.Proofs.Parser.Contract
import MonkeyFront.Proofs.Scanner.Spelling
import MonkeyFront.Proofs.Tree.WellFormed

/-!
# The parser yields well formed trees

Whatever else is in a source, a rule that yields a tree has looked at the token of each of its nodes.
Skipping tokens and dropping statements loses trees but changes none. So the rules are followed with
one thing known of the tokens to come: they were scanned.
-/

namespace MonkeyFront.Parser

open Rule Grammar

/-! ## Scanned tokens -/

/-- Each token to come stands as its literal, unless it is illegal. -/
def Scanned (parser : Parser) : Prop :=
  ∀ token ∈ parser.tokens, token.kind ≠ .illegal → token.Valid

section Scanned

variable {parser : Parser}

theorem scanned_ofSource (source : String) : (ofSource source).Scanned := by
  intro token hmem hi
  obtain ⟨lexeme, hl, rfl⟩ := List.mem_map.mp hmem
  have htokenize : lexeme.token ∈ tokenize source := by
    rw [tokens_ofSource]
    exact List.mem_append_left _ hmem
  exact valid_of_mem_tokenize htokenize hi (Scanner.kind_ne_eof_of_mem_drain _ lexeme hl)

theorem Scanned.advance (h : parser.Scanned) : parser.advance.Scanned := by
  intro token hmem
  rw [tokens_advance] at hmem
  exact h token (List.mem_of_mem_tail hmem)

theorem Scanned.pastOptional (h : parser.Scanned) (kind : Kind) :
    (parser.pastOptional kind).Scanned := by
  unfold Parser.pastOptional
  split
  · exact h.advance
  · exact h

theorem Scanned.valid (h : parser.Scanned) {kind : Kind} (hk : parser.currentToken.kind = kind)
    (ht : kind.isTerminal = true) : parser.currentToken.Valid := by
  subst hk
  have hi : parser.currentToken.kind ≠ .illegal := by
    intro hk
    simp [hk, Kind.isTerminal] at ht
  have he : parser.currentToken.kind ≠ .eof := by
    intro hk
    simp [hk, Kind.isTerminal] at ht
  refine h _ ?_ hi
  rw [tokens_of_currentToken he]
  exact List.mem_cons_self

end Scanned

/-! ## What rules yield -/

/-- After a rule the tokens to come are still scanned ones, and if it yields a value, then one with
a property. -/
def Rule.Gives {α : Type} (P : α → Prop) (rule : Rule α) (parser : Parser) : Prop :=
  (rule parser).2.Scanned ∧ ∀ value ∈ (rule parser).1, P value

namespace Rule.Gives

variable {α β : Type} {P : α → Prop} {Q : β → Prop} {rule : Rule α} {parser : Parser}

theorem of_some (h : Gives P rule parser) {value : α} {after : Parser}
    (he : rule parser = (some value, after)) : after.Scanned ∧ P value := by
  unfold Gives at h
  rw [he] at h
  exact ⟨h.1, h.2 value rfl⟩

theorem pure {value : α} (hp : parser.Scanned) (h : P value) :
    Gives P (pure value : Rule α) parser :=
  ⟨hp, fun _ he => Option.some.inj he ▸ h⟩

theorem refuse {diagnostic : Diagnostic} (hp : parser.Scanned) :
    Gives P (Rule.refuse diagnostic) parser :=
  ⟨hp, fun _ he => by cases he⟩

theorem bind {more : α → Rule β} (h : Gives P rule parser)
    (hm : ∀ {value after}, after.Scanned → P value → Gives Q (more value) after) :
    Gives Q (rule >>= more) parser := by
  unfold Gives at h ⊢
  cases hr : rule parser with
  | mk outcome after =>
      rw [hr] at h
      cases outcome with
      | none =>
          rw [bind_of_none hr]
          exact ⟨h.1, fun _ he => by cases he⟩
      | some value =>
          rw [bind_of_some hr]
          exact hm h.1 (h.2 value rfl)

theorem mono {Q : α → Prop} (h : Gives P rule parser) (hPQ : ∀ value, P value → Q value) :
    Gives Q rule parser :=
  ⟨h.1, fun value he => hPQ value (h.2 value he)⟩

/-! The rules that always go on only move the parser. -/

section Moves

theorem current_bind {more : Token → Rule β}
    (h : Gives Q (more parser.currentToken) parser) : Gives Q (current >>= more) parser := h

theorem see_bind {view : Parser → α} {more : α → Rule β}
    (h : Gives Q (more (view parser)) parser) : Gives Q (see view >>= more) parser := h

theorem skip_bind {more : Unit → Rule β} (h : Gives Q (more ()) parser.advance) :
    Gives Q (skip >>= more) parser := h

theorem skipOptional_bind {kind : Kind} {more : Unit → Rule β}
    (h : Gives Q (more ()) (parser.pastOptional kind)) :
    Gives Q (skipOptional kind >>= more) parser := h

theorem identifier_bind {more : Identifier → Rule β}
    (h : Gives Q (more ⟨parser.currentToken, parser.currentToken.literal⟩) parser) :
    Gives Q (identifier >>= more) parser := h

end Moves

/-- What follows after an expected token starts on it. -/
theorem expect_bind {kind : Kind} {more : Unit → Rule β} (hp : parser.Scanned)
    (h : parser.advance.currentToken.kind = kind → Gives Q (more ()) parser.advance) :
    Gives Q (expect kind >>= more) parser := by
  unfold Gives
  cases hk : parser.peekIs kind with
  | true =>
      have hkind := peekIs_iff.mp hk
      rw [bind_of_some (expect_of_kind hkind)]
      exact h hkind
  | false =>
      have hnone : expect kind parser =
          (none, parser.report (.unexpected kind parser.peekToken.kind)) := by
        rw [expect, hk, if_neg (by simp)]
      rw [bind_of_none hnone]
      exact ⟨hp, fun _ he => by cases he⟩

theorem onGivingUp {change : Parser → Parser}
    (hc : ∀ {after}, after.Scanned → (change after).Scanned) (h : Gives P rule parser) :
    Gives P (onGivingUp change rule) parser := by
  unfold Gives Rule.onGivingUp at *
  split
  next he => rwa [he] at h
  next he =>
    rw [he] at h
    exact ⟨hc h.1, h.2⟩

theorem skipping (h : Gives P rule parser) : Gives P (Rule.onGivingUp skipStatement rule) parser :=
  h.onGivingUp (skipStatement_induction (P := Scanned) (fun _ => Scanned.advance) _)

theorem many {goOn : Parser → Bool} {takes : Takes goOn rule} (hp : parser.Scanned)
    (h : ∀ {parser : Parser}, parser.Scanned → goOn parser = true → Gives P rule parser) :
    Gives (fun values => ∀ value ∈ values, P value) (many goOn rule takes) parser := by
  unfold Gives
  fun_induction Rule.many goOn rule takes parser with
  | case1 parser hg after hi =>
      have hitem := h hp hg
      unfold Gives at hitem
      rw [hi] at hitem
      exact ⟨hitem.1, fun _ he => by cases he⟩
  | case2 parser hg value after hi last hl ih =>
      obtain ⟨ha, -⟩ := (h hp hg).of_some hi
      rw [hl] at ih
      exact ih ha
  | case3 parser hg value after hi values last hl ih =>
      obtain ⟨ha, hvalue⟩ := (h hp hg).of_some hi
      rw [hl] at ih
      obtain ⟨hlast, hvalues⟩ := ih ha
      refine ⟨hlast, fun all he => ?_⟩
      obtain rfl := Option.some.inj he
      exact List.forall_mem_cons.mpr ⟨hvalue, hvalues values rfl⟩
  | case4 parser hg =>
      refine ⟨hp, fun all he => ?_⟩
      obtain rfl := Option.some.inj he
      simp

theorem fold {goOn : Parser → Bool} {step : α → Rule α} {takes : ∀ value, Takes goOn (step value)}
    {value : α} (hp : parser.Scanned) (hv : P value)
    (h : ∀ {value : α} {parser : Parser}, parser.Scanned → goOn parser = true → P value →
      Gives P (step value) parser) :
    Gives P (fold goOn step takes value) parser := by
  unfold Gives
  fun_induction Rule.fold goOn step takes value parser with
  | case1 value parser hg after hs =>
      have hstep := h hp hg hv
      unfold Gives at hstep
      rwa [hs] at hstep
  | case2 value parser hg next after hs ih =>
      obtain ⟨ha, hnext⟩ := (h hp hg hv).of_some hs
      exact ih ha hnext
  | case3 value parser hg => exact ⟨hp, fun _ he => Option.some.inj he ▸ hv⟩

end Rule.Gives

/-! ## Literals -/

/-- Whether a node that is an integer has a literal that the parser accepts. -/
def InRange : Node → Prop
  | .expression (.integer token _) => (integerValue? token.literal).isSome = true
  | _ => True

/-- A tree whose nodes are well formed and keep tokens that stand as their literals, and whose
integers are in range. -/
def Built (root : Node) : Prop :=
  root.Everywhere fun node =>
    ((∀ token ∈ node.token?, token.Valid) ∧ node.WellFormed) ∧ InRange node

variable {parser : Parser}

theorem Scanned.built {node : Node} {kind : Kind} (hp : parser.Scanned)
    (ht : node.token? = some parser.currentToken) (hk : parser.currentToken.kind = kind)
    (hterminal : kind.isTerminal = true) (hw : node.WellFormed) (hr : InRange node)
    (hc : ∀ child ∈ node.children, Built child) : Built node := by
  refine .intro ⟨⟨?_, hw⟩, hr⟩ hc
  rw [ht]
  rintro _ ⟨⟩
  exact hp.valid hk hterminal

theorem built_name (hp : parser.Scanned) (hk : parser.currentToken.kind = .ident) :
    Built (.expression (.identifier ⟨parser.currentToken, parser.currentToken.literal⟩)) := by
  obtain ⟨hne, hletters, hword⟩ := (hp.valid hk rfl).of_ident hk
  exact hp.built rfl hk rfl ⟨hk, hne, hletters, hword, rfl⟩ trivial (by simp [Node.children])

theorem gives_integer (hp : parser.Scanned) (hk : parser.currentToken.kind = .int) :
    Gives (fun tree => Built (.expression tree)) integer parser := by
  refine .current_bind ?_
  split
  next value hvalue =>
    obtain ⟨hne, hdigits, hdecimal, hle⟩ := integerValue?_eq_some hvalue
    have hmax : (maxInteger : Int) = 2 ^ 63 - 1 := by decide
    refine .pure hp (hp.built rfl hk rfl ⟨hk, hne, hdigits, by rw [hdecimal], by omega, ?_⟩
      (by simp [InRange, hvalue]) (by simp [Node.children]))
    omega
  next => exact .refuse hp

theorem gives_boolean (hp : parser.Scanned) {word : Keyword}
    (hk : parser.currentToken.kind = .keyword word) (hw : word = .trueWord ∨ word = .falseWord) :
    Gives (fun tree => Built (.expression tree)) boolean parser := by
  refine .current_bind (.pure hp (hp.built rfl hk rfl ?_ trivial (by simp [Node.children])))
  rcases hw with rfl | rfl
  · exact .inl ⟨hk, by simp [hk]⟩
  · exact .inr ⟨hk, by simp [hk]⟩

/-! ## Statements -/

/-- A statement that may stand in a row of statements. -/
def BuiltInRow (tree : Statement) : Prop := Built (.statement tree) ∧ tree.isBlock = false

/-- An expression is built, and can start with the token under examination. -/
def BuiltAt (parser : Parser) (tree : Expression) : Prop :=
  Built (.expression tree) ∧ parser.currentToken.kind.startsExpression = true

/-- Nested expressions are built where they start. -/
def Nested.Builds (nested : Nested) : Prop :=
  ∀ (strength : Precedence) {parser : Parser}, parser.Scanned →
    Gives (BuiltAt parser) (nested.parse strength) parser

theorem isTerminal_of_startsExpression {kind : Kind} (h : kind.startsExpression = true) :
    kind.isTerminal = true := by
  cases kind <;> first | rfl | cases h

section Rules

variable {nested : Nested} (hn : nested.Builds)
include hn

theorem gives_binding (hp : parser.Scanned)
    (hk : parser.currentToken.kind = .keyword .letWord) :
    Gives BuiltInRow (binding nested) parser := by
  refine .skipping (.current_bind ?_)
  refine .expect_bind hp fun hname => .identifier_bind ?_
  refine .expect_bind hp.advance fun _ => .skip_bind ?_
  refine (hn .lowest hp.advance.advance.advance).bind fun ha hvalue => ?_
  refine .skipOptional_bind (.pure (ha.pastOptional _) ⟨?_, rfl⟩)
  refine hp.built rfl hk rfl ⟨hk, rfl⟩ trivial ?_
  simpa [Node.children] using ⟨built_name hp.advance hname, hvalue.1⟩

theorem gives_result (hp : parser.Scanned)
    (hk : parser.currentToken.kind = .keyword .returnWord) :
    Gives BuiltInRow (result nested) parser := by
  refine .skipping (.current_bind (.skip_bind ?_))
  refine (hn .lowest hp.advance).bind fun ha hvalue => ?_
  refine .skipOptional_bind (.pure (ha.pastOptional _) ⟨?_, rfl⟩)
  refine hp.built rfl hk rfl ⟨hk, rfl⟩ trivial ?_
  simpa [Node.children] using hvalue.1

theorem gives_expressionStatement (hp : parser.Scanned) :
    Gives BuiltInRow (expressionStatement nested) parser := by
  refine .current_bind ?_
  refine (hn .lowest hp).bind fun ha ⟨hvalue, hstarts⟩ => ?_
  refine .skipOptional_bind (.pure (ha.pastOptional _) ⟨?_, rfl⟩)
  refine hp.built rfl rfl (isTerminal_of_startsExpression hstarts) ⟨hstarts, rfl⟩ trivial ?_
  simpa [Node.children] using hvalue

theorem gives_statement (hp : parser.Scanned) :
    Gives BuiltInRow (statement nested) parser := by
  have hdrop {after : Parser} (ha : after.Scanned) : after.countDropped.Scanned := ha
  refine .onGivingUp hdrop (.current_bind ?_)
  split
  next hk => exact gives_binding hn hp hk
  next hk => exact gives_result hn hp hk
  next => exact gives_expressionStatement hn hp

theorem gives_statementOrGap (hp : parser.Scanned) :
    Gives (fun kept => ∀ tree ∈ kept, BuiltInRow tree) (statementOrGap nested) parser := by
  obtain ⟨ha, htree⟩ := gives_statement hn hp
  exact ⟨ha.advance, fun kept he => Option.some.inj he ▸ htree⟩

theorem gives_statements (hp : parser.Scanned) {goOn : Parser → Bool}
    {takes : Takes goOn (statementOrGap nested)} :
    Gives (fun values => ∀ tree ∈ values.filterMap id, BuiltInRow tree)
      (many goOn (statementOrGap nested) takes) parser := by
  refine (Gives.many hp fun hp _ => gives_statementOrGap hn hp).mono
    fun values hvalues tree hmem => ?_
  obtain ⟨kept, hkept, rfl⟩ := List.mem_filterMap.mp hmem
  exact hvalues (some tree) hkept tree rfl

theorem gives_block (hp : parser.Scanned) (hk : parser.currentToken.kind = .sign .leftBrace) :
    Gives (fun tree => Built (.statement (.block tree))) (block nested) parser := by
  refine .current_bind (.skip_bind ?_)
  refine (gives_statements hn hp.advance).bind fun ha hrow => .see_bind ?_
  split
  · exact .refuse ha
  · refine .pure ha (hp.built rfl hk rfl ⟨hk, fun tree hmem => (hrow tree hmem).2⟩ trivial ?_)
    exact List.forall_mem_map.mpr fun tree hmem => (hrow tree hmem).1

theorem gives_program (hp : parser.Scanned) :
    Gives (fun tree => Built (.program tree)) (program nested) parser := by
  refine (gives_statements hn hp).bind fun ha hrow => .pure ha (.intro ⟨⟨?_, ?_⟩, trivial⟩ ?_)
  · simp [Node.token?]
  · exact fun tree hmem => (hrow tree hmem).2
  · exact List.forall_mem_map.mpr fun tree hmem => (hrow tree hmem).1

/-! ## Operands -/

theorem gives_unary (hp : parser.Scanned) {mark : Sign}
    (hk : parser.currentToken.kind = .sign mark) (hm : mark = .bang ∨ mark = .minus) :
    Gives (fun tree => Built (.expression tree)) (unary nested) parser := by
  obtain ⟨hliteral, hname⟩ := (hp.valid hk rfl).of_sign hk
  refine .current_bind (.skip_bind ?_)
  refine (hn .unary hp.advance).bind fun ha hoperand => .pure ha ?_
  refine hp.built rfl hk rfl ⟨?_, rfl, hliteral.trans hname.symm⟩ trivial ?_
  · rw [hliteral]
    rcases hm with rfl | rfl <;> decide
  · simpa [Node.children] using hoperand.1

theorem gives_group (hp : parser.Scanned) :
    Gives (fun tree => Built (.expression tree)) (group nested) parser := by
  refine .skip_bind ?_
  refine (hn .lowest hp.advance).bind fun ha hinside => ?_
  exact .expect_bind ha fun _ => .pure ha.advance hinside.1

theorem gives_conditional (hp : parser.Scanned)
    (hk : parser.currentToken.kind = .keyword .ifWord) :
    Gives (fun tree => Built (.expression tree)) (conditional nested) parser := by
  refine .current_bind ?_
  refine .expect_bind hp fun _ => .skip_bind ?_
  refine (hn .lowest hp.advance.advance).bind fun ha hcondition => ?_
  refine .expect_bind ha fun _ => .expect_bind ha.advance fun hbrace => ?_
  refine (gives_block hn ha.advance.advance hbrace).bind fun hb hconsequence => .see_bind ?_
  split
  · refine .skip_bind (.expect_bind hb.advance fun hbrace => ?_)
    refine (gives_block hn hb.advance.advance hbrace).bind fun hc halternative => .pure hc ?_
    refine hp.built rfl hk rfl hk trivial ?_
    simpa [Node.children] using ⟨hcondition.1, hconsequence, halternative⟩
  · refine .pure hb (hp.built rfl hk rfl hk trivial ?_)
    simpa [Node.children] using ⟨hcondition.1, hconsequence⟩

omit hn in
theorem gives_parameters (hp : parser.Scanned) :
    Gives (fun names => ∀ name ∈ names, Built (.expression (.identifier name))) parameters
      parser := by
  have hnext {parser : Parser} (hp : parser.Scanned) :
      Gives (fun name => Built (.expression (.identifier name))) nextParameter parser := by
    refine .skip_bind (.expect_bind hp.advance fun hname => ?_)
    exact .current_bind (.pure hp.advance.advance (built_name hp.advance.advance hname))
  refine .see_bind ?_
  split
  · exact .skip_bind (.pure hp.advance (by simp))
  · refine .expect_bind hp fun hname => .identifier_bind ?_
    refine (Gives.many hp.advance fun hp _ => hnext hp).bind fun ha hothers => ?_
    refine .expect_bind ha fun _ => .pure ha.advance ?_
    exact List.forall_mem_cons.mpr ⟨built_name hp.advance hname, hothers⟩

theorem gives_function (hp : parser.Scanned)
    (hk : parser.currentToken.kind = .keyword .fnWord) :
    Gives (fun tree => Built (.expression tree)) (function nested) parser := by
  refine .current_bind (.expect_bind hp fun _ => ?_)
  refine (gives_parameters hp.advance).bind fun ha hnames => ?_
  refine .expect_bind ha fun hbrace => ?_
  refine (gives_block hn ha.advance hbrace).bind fun hb hbody => .pure hb ?_
  refine hp.built rfl hk rfl hk trivial ?_
  simpa [Node.children, or_imp, forall_and] using ⟨hnames, hbody⟩

theorem gives_operand (hp : parser.Scanned) :
    Gives (BuiltAt parser) (operand nested) parser := by
  have hstarts {rule : Rule Expression} {kind : Kind} (hk : parser.currentToken.kind = kind)
      (hs : kind.startsExpression = true)
      (h : Gives (fun tree => Built (.expression tree)) rule parser) :
      Gives (BuiltAt parser) rule parser :=
    h.mono fun tree htree => ⟨htree, hk ▸ hs⟩
  refine .current_bind ?_
  split
  next hk => exact hstarts hk rfl (.identifier_bind (.pure hp (built_name hp hk)))
  next hk => exact hstarts hk rfl (gives_integer hp hk)
  next hk => exact hstarts hk rfl (gives_boolean hp hk (.inl rfl))
  next hk => exact hstarts hk rfl (gives_boolean hp hk (.inr rfl))
  next hk => exact hstarts hk rfl (gives_unary hn hp hk (.inl rfl))
  next hk => exact hstarts hk rfl (gives_unary hn hp hk (.inr rfl))
  next hk => exact hstarts hk rfl (gives_group hn hp)
  next hk => exact hstarts hk rfl (gives_conditional hn hp hk)
  next hk => exact hstarts hk rfl (gives_function hn hp hk)
  next => exact .refuse hp

/-! ## Operators -/

/-- What binds tighter than something and opens no call is a binary operator. -/
theorem gives_binary (hp : parser.Scanned) {strength : Precedence} {left : Expression}
    (hl : Built (.expression left)) (hs : strength < parser.currentPrecedence)
    (hk : parser.currentToken.kind ≠ .sign .leftParen) :
    Gives (fun tree => Built (.expression tree)) (binary nested left) parser := by
  obtain ⟨mark, hmark, hstrength⟩ := Kind.exists_sign hs
  obtain ⟨stratum, hmem, -⟩ :=
    Stratum.exists_mem_operators hstrength (by simpa [hmark] using hk)
  obtain ⟨hliteral, hname⟩ := (hp.valid hmark rfl).of_sign hmark
  refine .current_bind (.see_bind (.skip_bind ?_))
  refine (hn _ hp.advance).bind fun ha hright => .pure ha ?_
  refine hp.built rfl hmark rfl ⟨?_, rfl, hliteral.trans hname.symm⟩ trivial ?_
  · rw [hliteral]
    exact Stratum.spelling_of_mem_operators hmem
  · simpa [Node.children] using ⟨hl, hright.1⟩

theorem gives_arguments (hp : parser.Scanned) :
    Gives (fun trees => ∀ tree ∈ trees, Built (.expression tree)) (arguments nested) parser := by
  have hnext {parser : Parser} (hp : parser.Scanned) :
      Gives (fun tree => Built (.expression tree)) (nextArgument nested) parser := by
    refine .skip_bind (.skip_bind ?_)
    exact (hn .lowest hp.advance.advance).mono fun _ h => h.1
  refine .see_bind ?_
  split
  · exact .skip_bind (.pure hp.advance (by simp))
  · refine .skip_bind ?_
    refine (hn .lowest hp.advance).bind fun ha hfirst => ?_
    refine (Gives.many ha fun hp _ => hnext hp).bind fun hb hothers => ?_
    refine .expect_bind hb fun _ => .pure hb.advance ?_
    exact List.forall_mem_cons.mpr ⟨hfirst.1, hothers⟩

theorem gives_call (hp : parser.Scanned) {callee : Expression} (hl : Built (.expression callee))
    (hk : parser.currentToken.kind = .sign .leftParen) :
    Gives (fun tree => Built (.expression tree)) (call nested callee) parser := by
  refine .current_bind ?_
  refine (gives_arguments hn hp).bind fun ha harguments => .pure ha ?_
  refine hp.built rfl hk rfl hk trivial ?_
  simpa [Node.children] using ⟨hl, harguments⟩

theorem gives_continued (hp : parser.Scanned) {strength : Precedence} {left : Expression}
    (hl : Built (.expression left)) (hg : parser.bindsTighter strength = true) :
    Gives (fun tree => Built (.expression tree)) (continued nested left) parser := by
  have hs : strength < parser.advance.currentPrecedence := lt_advance_of_bindsTighter hg
  refine .skip_bind (.see_bind ?_)
  split
  next hk => exact gives_call hn hp.advance hl (currentIs_iff.mp hk)
  next hk => exact gives_binary hn hp.advance hl hs (mt currentIs_iff.mpr hk)

/-! ## Levels -/

theorem gives_level (strength : Precedence) (hp : parser.Scanned) :
    Gives (BuiltAt parser) (level nested strength) parser := by
  refine (gives_operand hn hp).bind fun ha hleft => ?_
  have hclimb : Gives (fun tree => Built (.expression tree)) (climb nested strength _) _ :=
    .fold ha hleft.1 fun hp hg hl => gives_continued hn hp hl hg
  exact hclimb.mono fun _ htree => ⟨htree, hleft.2⟩

end Rules

/-- However many levels may still be opened, what they yield is built. -/
theorem builds_nestedIn (room : Nat) : (nestedIn room).Builds := by
  induction room with
  | zero =>
      -- With no level left, every expression is refused.
      exact fun _ _ hp => .skipping (.refuse hp)
  | succ room ih =>
      intro strength parser hp
      have henter : parser.enter.Scanned := hp
      exact gives_level ih strength henter

theorem built_parse (source : String) : Built (.program (parse source).program) := by
  obtain ⟨values, after, -, hrun⟩ := program_run (nestedIn maxDepth) (ofSource source)
  rw [parse_of_run hrun]
  exact ((gives_program (builds_nestedIn maxDepth) (scanned_ofSource source)).of_some hrun).2

theorem built_program (source : String) : (Node.program (parse source).program).Everywhere
    fun node => (∀ token ∈ node.token?, token.Valid) ∧ node.WellFormed :=
  (built_parse source).mono fun _ h => h.1

end MonkeyFront.Parser

namespace MonkeyFront

/-- Every node of a parsed source is well formed and plain, whether the source was accepted or
not. -/
theorem parse_wellFormed (source : String) :
    (Node.program (parse source).program).Everywhere fun node => node.WellFormed ∧ node.Plain :=
  (Parser.built_program source).mono fun _ h => ⟨h.2, h.2.plain h.1⟩

/-- Two statements are given up here, and the function around one of them is kept. -/
example : (parse "let = 1; fn(x) { let y 2; x }").program.statements.map (·.token.literal) =
    ["fn"] := by
  decide +kernel

end MonkeyFront
