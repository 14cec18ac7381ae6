import MonkeyFront.Proofs.Parser.WellFormed
import MonkeyFront.Proofs.Rendering.RoundTrip

/-!
# Renderings tell programs apart

Programs that are rendered as the same text are the same, up to the tokens that their expression
statements start with. A rendering scans to tokens that derive the program again, and a parser with
room enough reads them as one program only. The parentheses of a rendering may be too many for the
parser of a source, but there is room for any number of them.
-/

namespace MonkeyFront

open Grammar MonkeyFront.Parser

/-! ## One derivation -/

/-- Tokens derive one row of statements at most, if the integers among them are in range. -/
theorem eq_of_derives {trees others : List Statement} {m n : Nat} {tokens : List Token}
    (h : Derives (.statements trees) m tokens) (ho : Derives (.statements others) n tokens)
    (hr : Readable tokens) : trees = others := by
  let parser := ofLexemes (tokens.map fun token => ⟨token, 0, 0⟩)
  have ht : parser.tokens = tokens := by
    simp [parser, ofLexemes, Parser.tokens, Function.comp_def]
  obtain ⟨first, -, hfirst⟩ := statementsOrGaps_of_derives h (Nat.le_max_left m n) hr ht
  obtain ⟨second, -, hsecond⟩ := statementsOrGaps_of_derives ho (Nat.le_max_right m n) hr ht
  have heq := hfirst.symm.trans hsecond
  simp only [Prod.mk.injEq, Option.some.injEq] at heq
  exact List.map_inj_right (fun _ _ => Option.some.inj) |>.mp heq.1

/-! ## Parsed trees are written -/

/-- A token that stands as its literal is the sign that its kind is named after. -/
theorem Token.Valid.eq_ofSign_of_name {token : Token} (h : token.Valid) {mark : Sign}
    (hn : token.kind.name = mark.spelling) : token = .ofSign mark :=
  h.eq_ofSign (Kind.name_injective hn)

section Trees

variable {token : Token} {operator : String} {left right operand callee : Expression}
  {trees : List Expression} {n : Nat} {tokens more : List Token}

theorem exists_written_name {name : Identifier}
    (hb : Built (.expression (.identifier name))) :
    ∃ tokens, Written (.identifier name) tokens := by
  obtain ⟨⟨hv, hk, -, -, -, hvalue⟩, -⟩ := hb.own
  obtain ⟨token, value⟩ := name
  obtain rfl : value = token.literal := hvalue
  have hkind : token.kind = .ident := hk
  exact ⟨_, written_token (hv token rfl) (by simp [hkind]) (by simp [hkind]) (.name hkind) rfl rfl⟩

theorem exists_written_integer {value : Int}
    (hb : Built (.expression (.integer token value))) :
    ∃ tokens, Written (.integer token value) tokens := by
  obtain ⟨⟨hv, hk, -, -, hvalue, -⟩, hr⟩ := hb.own
  subst hvalue
  have hread : Readable [token] := by
    have : (integerValue? token.literal).isSome = true := hr
    simp [this]
  exact ⟨_, written_token (hv token rfl) hread (by simp [hk]) (.integer hk) rfl rfl⟩

theorem exists_written_boolean {value : Bool}
    (hb : Built (.expression (.boolean token value))) :
    ∃ tokens, Written (.boolean token value) tokens := by
  obtain ⟨⟨hv, ⟨hk, rfl⟩ | ⟨hk, rfl⟩⟩, -⟩ := hb.own
  · exact ⟨_, written_token (hv token rfl) (by simp [hk]) (by simp [hk]) (.trueWord hk) rfl rfl⟩
  · exact ⟨_, written_token (hv token rfl) (by simp [hk]) (by simp [hk]) (.falseWord hk) rfl rfl⟩

theorem exists_written_unary (hb : Built (.expression (.unary token operator operand)))
    (h : Written operand tokens) : ∃ tokens, Written (.unary token operator operand) tokens := by
  obtain ⟨⟨hv, hmem, -, hname⟩, -⟩ := hb.own
  simp only [List.mem_cons, List.not_mem_nil, or_false] at hmem
  obtain ⟨mark, hm, rfl⟩ : ∃ mark : Sign, (mark = .bang ∨ mark = .minus) ∧
      mark.spelling = operator := by
    rcases hmem with rfl | rfl
    · exact ⟨.bang, .inl rfl, rfl⟩
    · exact ⟨.minus, .inr rfl, rfl⟩
  obtain rfl := (hv token rfl).eq_ofSign_of_name hname.symm
  exact ⟨_, written_unary hm h⟩

theorem exists_written_binary (hb : Built (.expression (.binary token left operator right)))
    (hl : Written left tokens) (hr : Written right more) :
    ∃ tokens, Written (.binary token left operator right) tokens := by
  obtain ⟨⟨hv, hmem, -, hname⟩, -⟩ := hb.own
  obtain ⟨stratum, mark, hm, rfl⟩ := Stratum.exists_mem_of_spelling hmem
  obtain rfl := (hv token rfl).eq_ofSign_of_name hname.symm
  exact ⟨_, written_binary hm hl hr⟩

theorem exists_written_call (hb : Built (.expression (.call token callee trees)))
    (h : Written callee tokens) (ha : WrittenArguments trees n more) :
    ∃ tokens, Written (.call token callee trees) tokens := by
  obtain ⟨⟨hv, hk⟩, -⟩ := hb.own
  obtain rfl := (hv token rfl).eq_ofSign hk
  exact ⟨_, written_call h ha⟩

end Trees

mutual

theorem exists_written (tree : Expression) (hb : Built (.expression tree))
    (hp : tree.isPlain = true) : ∃ tokens, Written tree tokens := by
  cases tree with
  | identifier name => exact exists_written_name hb
  | integer token value => exact exists_written_integer hb
  | boolean token value => exact exists_written_boolean hb
  | unary token operator operand =>
      obtain ⟨_, h⟩ := exists_written operand (hb.child (by simp [Node.children])) hp
      exact exists_written_unary hb h
  | binary token left operator right =>
      simp only [Expression.isPlain, Bool.and_eq_true] at hp
      obtain ⟨_, hl⟩ := exists_written left (hb.child (by simp [Node.children])) hp.1
      obtain ⟨_, hr⟩ := exists_written right (hb.child (by simp [Node.children])) hp.2
      exact exists_written_binary hb hl hr
  | conditional | function => cases hp
  | call token callee trees =>
      simp only [Expression.isPlain, Bool.and_eq_true] at hp
      obtain ⟨_, h⟩ := exists_written callee (hb.child (by simp [Node.children])) hp.1
      obtain ⟨_, _, ha⟩ := exists_writtenArguments trees
        (fun tree hm => hb.child (by simp [Node.children, hm])) hp.2
      exact exists_written_call hb h ha

theorem exists_writtenArguments (trees : List Expression)
    (hb : ∀ tree ∈ trees, Built (.expression tree)) (hp : Expression.arePlain trees = true) :
    ∃ nesting tokens, WrittenArguments trees nesting tokens := by
  cases trees with
  | nil => exact ⟨_, _, written_noArguments⟩
  | cons first others =>
      simp only [Expression.arePlain, Bool.and_eq_true] at hp
      rw [List.forall_mem_cons] at hb
      obtain ⟨_, h⟩ := exists_written first hb.1 hp.1
      obtain ⟨_, _, ho⟩ := exists_writtenOthers others hb.2 hp.2
      exact ⟨_, _, written_arguments h ho⟩

theorem exists_writtenOthers (trees : List Expression)
    (hb : ∀ tree ∈ trees, Built (.expression tree)) (hp : Expression.arePlain trees = true) :
    ∃ nesting tokens, WrittenOthers trees nesting tokens := by
  cases trees with
  | nil => exact ⟨_, _, written_noOthers⟩
  | cons first others =>
      simp only [Expression.arePlain, Bool.and_eq_true] at hp
      rw [List.forall_mem_cons] at hb
      obtain ⟨_, h⟩ := exists_written first hb.1 hp.1
      obtain ⟨_, _, ho⟩ := exists_writtenOthers others hb.2 hp.2
      exact ⟨_, _, written_others h ho⟩

end

/-! ## Parsed programs are written -/

theorem exists_writtenStatement {tree : Statement} (hb : Built (.statement tree))
    (hblock : tree.isBlock = false) (hp : ∀ value ∈ tree.value?, value.isPlain = true) :
    ∃ closed again value tokens, WrittenStatement closed tree again value tokens := by
  cases tree with
  | binding word name value =>
      obtain ⟨⟨hv, hk, hsome⟩, -⟩ := hb.own
      obtain ⟨value, rfl⟩ := Option.isSome_iff_exists.mp hsome
      have hname : Built (.expression (.identifier name)) := hb.child (by simp [Node.children])
      obtain ⟨⟨hvn, hkn, -, -, -, hvalue⟩, -⟩ := hname.own
      obtain ⟨token, text⟩ := name
      obtain rfl : text = token.literal := hvalue
      obtain ⟨_, h⟩ := exists_written value (hb.child (by simp [Node.children])) (hp value rfl)
      exact ⟨_, _, _, _, written_binding hk hkn (hv word rfl) (hvn token rfl) h⟩
  | result word value =>
      obtain ⟨⟨hv, hk, hsome⟩, -⟩ := hb.own
      obtain ⟨value, rfl⟩ := Option.isSome_iff_exists.mp hsome
      obtain ⟨_, h⟩ := exists_written value (hb.child (by simp [Node.children])) (hp value rfl)
      exact ⟨_, _, _, _, written_result hk (hv word rfl) h⟩
  | expression start value =>
      obtain ⟨⟨-, -, hsome⟩, -⟩ := hb.own
      obtain ⟨value, rfl⟩ := Option.isSome_iff_exists.mp hsome
      obtain ⟨_, h⟩ := exists_written value (hb.child (by simp [Node.children])) (hp value rfl)
      obtain ⟨_, h⟩ := written_bare h
      exact ⟨_, _, _, _, h⟩
  | block => cases hblock

theorem exists_writtenStatements {trees : List Statement}
    (hb : ∀ tree ∈ trees, Built (.statement tree)) (hblock : ∀ tree ∈ trees, tree.isBlock = false)
    (hlast : ∀ tree ∈ trees.dropLast, tree.isExpression = false)
    (hp : ∀ tree ∈ trees, ∀ value ∈ tree.value?, value.isPlain = true) :
    ∃ again nesting tokens, WrittenStatements trees again nesting tokens := by
  induction trees with
  | nil => exact ⟨_, _, _, written_noStatements⟩
  | cons first others ih =>
      rw [List.forall_mem_cons] at hb hblock hp
      obtain ⟨_, _, _, _, h⟩ := exists_writtenStatement hb.1 hblock.1 hp.1
      obtain ⟨_, _, _, ho⟩ := ih hb.2 hblock.2 (forall_mem_dropLast hlast) hp.2
      exact ⟨_, _, _, written_row h ho hlast⟩

/-- A program of which only the last statement may be an expression, and in which no expression
holds a choice or a function. -/
structure Program.Straight (program : Program) : Prop where
  last : ∀ tree ∈ program.statements.dropLast, tree.isExpression = false
  plain : ∀ tree ∈ program.statements, ∀ value ∈ tree.value?, value.isPlain = true

theorem exists_written_parse {source : String} (h : (parse source).program.Straight) :
    ∃ again nesting tokens,
      WrittenStatements (parse source).program.statements again nesting tokens := by
  have hb := built_parse source
  obtain ⟨⟨-, hblock⟩, -⟩ := hb.own
  refine exists_writtenStatements ?_ hblock h.last h.plain
  exact fun tree hm => hb.child (List.mem_map_of_mem hm)

/-- Two parsed programs are rendered as the same text exactly if they are the same, up to the tokens
that their expression statements start with. Nothing bounds the depth of their trees, and the
sources may be malformed elsewhere. -/
theorem render_unambiguous (a b : String) (ha : (parse a).program.Straight)
    (hb : (parse b).program.Straight) :
    (parse a).program.render = (parse b).program.render ↔
      (parse a).program.statements.map Statement.forgetStart =
        (parse b).program.statements.map Statement.forgetStart := by
  constructor
  · intro hrender
    obtain ⟨first, m, tokens, hfirst⟩ := exists_written_parse ha
    obtain ⟨second, n, more, hsecond⟩ := exists_written_parse hb
    have htext : (Statement.renderAll (parse a).program.statements).toList =
        (Statement.renderAll (parse b).program.statements).toList := congrArg String.toList hrender
    have htokens : tokens = more := by
      have hscan := hfirst.scans
      rw [htext, hsecond.scans] at hscan
      exact (List.append_cancel_right hscan).symm
    subst htokens
    have hsame : first = second := eq_of_derives hfirst.derives hsecond.derives hfirst.readable
    rw [← hfirst.similar, ← hsecond.similar, hsame]
  · intro hsame
    show Statement.renderAll _ = Statement.renderAll _
    rw [← Statement.renderAll_forgetStart, hsame, Statement.renderAll_forgetStart]

/-- The second source is malformed in the middle, and its last statement starts with another
token. -/
theorem render_unambiguous_group :
    (parse "let x = -a * 2; x(1)").program.Straight ∧
    (parse "let x = (-a) * 2; return @; (x)(1)").program.Straight ∧
    (parse "let x = -a * 2; x(1)").program.statements.map Statement.forgetStart =
      (parse "let x = (-a) * 2; return @; (x)(1)").program.statements.map Statement.forgetStart :=
  have ha : (parse "let x = -a * 2; x(1)").program.Straight := ⟨by decide +kernel, by decide +kernel⟩
  have hb : (parse "let x = (-a) * 2; return @; (x)(1)").program.Straight :=
    ⟨by decide +kernel, by decide +kernel⟩
  ⟨ha, hb, (render_unambiguous _ _ ha hb).mp (by decide +kernel)⟩

end MonkeyFront
