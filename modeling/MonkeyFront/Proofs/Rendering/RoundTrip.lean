import MonkeyFront.Proofs.Parser.Soundness
import MonkeyFront.Proofs.Parser.TooDeep
import MonkeyFront.Tree.Rendering

/-!
# Rendering and parsing again

A rendered expression stands in as many parentheses as it has operators, and these count as nesting.
Its text scans to tokens that derive the same tree, so parsing them gives the tree back as long as
the parentheses are not too many.
-/

namespace MonkeyFront

/-! ## Plain expressions -/

mutual

/-- Whether an expression holds no choice and no function. -/
def Expression.isPlain : Expression → Bool
  | .identifier _ | .integer .. | .boolean .. => true
  | .unary _ _ operand => operand.isPlain
  | .binary _ left _ right => left.isPlain && right.isPlain
  | .conditional .. | .function .. => false
  | .call _ callee arguments => callee.isPlain && Expression.arePlain arguments

def Expression.arePlain : List Expression → Bool
  | [] => true
  | first :: others => first.isPlain && Expression.arePlain others

end

mutual

/-- How deep the rendering of a plain expression is nested. -/
def Expression.renderedNesting : Expression → Nat
  | .identifier _ | .integer .. | .boolean .. => 1
  | .unary _ _ operand => 2 + operand.renderedNesting
  | .binary _ left _ right => max (1 + left.renderedNesting) (2 + right.renderedNesting)
  | .conditional .. | .function .. => 0
  | .call _ callee arguments =>
      max callee.renderedNesting (Expression.argumentsNesting arguments)

def Expression.argumentsNesting : List Expression → Nat
  | [] => 0
  | first :: others => max (1 + first.renderedNesting) (Expression.argumentsNesting others)

end

namespace Statement

def value? : Statement → Option Expression
  | .binding _ _ value | .result _ value | .expression _ value => value
  | .block _ => none

/-- Whether a statement is an expression for its own sake. -/
def isExpression : Statement → Bool
  | .expression .. => true
  | _ => false

/-- A statement without the token that an expression statement starts with. -/
def forgetStart : Statement → Statement
  | .expression _ value => .expression Token.eof value
  | statement => statement

theorem render_forgetStart (statement : Statement) :
    statement.forgetStart.render = statement.render := by
  cases statement with
  | expression token value => cases value <;> simp [forgetStart, Statement.render]
  | _ => rfl

theorem renderAll_forgetStart (statements : List Statement) :
    renderAll (statements.map forgetStart) = renderAll statements := by
  induction statements with
  | nil => rfl
  | cons first others ih =>
      simp only [List.map_cons, Statement.renderAll, render_forgetStart, ih]

end Statement

/-! ## Written expressions -/

open Grammar MonkeyFront.Parser

/-- The rendering of an expression scans to tokens that derive it again. -/
structure Written (tree : Expression) (tokens : List Token) : Prop where
  derives : Derives (.expression .call tree) tree.renderedNesting tokens
  readable : Readable tokens
  braceless : Braceless tokens
  scans : ∀ {rest : List Char}, Parted rest →
    munch (tree.render.toList ++ rest) = tokens ++ munch rest
  starts : ∃ c more, tree.render.toList = c :: more ∧ c ≠ '='

/-- The text of expressions that go on a list. -/
def otherText (trees : List Expression) : List Char :=
  trees.flatMap fun tree => ',' :: ' ' :: tree.render.toList

theorem toList_commaSeparated (tree : Expression) (others : List Expression) :
    (commaSeparated (Expression.renderEach (tree :: others))).toList =
      tree.render.toList ++ otherText others := by
  induction others generalizing tree with
  | nil => simp [commaSeparated, otherText, Expression.renderEach]
  | cons other others ih =>
      have := ih other
      simp only [commaSeparated, Expression.renderEach, String.intercalate_cons_cons] at this ⊢
      simp [this, otherText]

/-- The same for expressions that go on a list. -/
structure WrittenOthers (trees : List Expression) (nesting : Nat) (tokens : List Token) : Prop where
  derives : Derives (.otherArguments trees) nesting tokens
  nesting_eq : max 1 (Expression.argumentsNesting trees) = nesting + 1
  readable : Readable tokens
  braceless : Braceless tokens
  scans : ∀ {rest : List Char},
    munch (otherText trees ++ ')' :: rest) = tokens ++ munch (')' :: rest)

/-- The same for arguments. -/
structure WrittenArguments (trees : List Expression) (nesting : Nat) (tokens : List Token) :
    Prop where
  derives : Derives (.arguments trees) nesting tokens
  nesting_eq : max 1 (Expression.argumentsNesting trees) = nesting + 1
  readable : Readable tokens
  braceless : Braceless tokens
  scans : ∀ {rest : List Char},
    munch ((commaSeparated (Expression.renderEach trees)).toList ++ ')' :: rest) =
      tokens ++ munch (')' :: rest)

section Expressions

variable {tree left right callee : Expression} {trees others : List Expression} {m n : Nat}
  {tokens more : List Token}

theorem munch_leftParen {rest : List Char} :
    munch ('(' :: rest) = .ofSign .leftParen :: munch rest :=
  munch_lone .leftParen rfl (by decide) (by decide)

theorem munch_rightParen {rest : List Char} :
    munch (')' :: rest) = .ofSign .rightParen :: munch rest :=
  munch_lone .rightParen rfl (by decide) (by decide)

theorem munch_space {rest : List Char} : munch (' ' :: rest) = munch rest :=
  munch_blank (by decide)

theorem written_token {token : Token} (hv : token.Valid) (hr : Readable [token])
    (hk : ∀ mark, token.kind ≠ .sign mark) (hd : Derives (.expression .call tree) 1 [token])
    (hrender : tree.render = token.literal) (hone : tree.renderedNesting = 1) :
    Written tree [token] where
  derives := hone ▸ hd
  readable := hr
  braceless := by simp [Braceless, hk]
  scans hrest := by rw [hrender, munch_parted hv hk hrest]; rfl
  starts := by
    obtain ⟨c, rest, ht, hc⟩ := first_of_valid hv hk
    refine ⟨c, rest, hrender ▸ ht, ?_⟩
    rintro rfl
    revert hc
    decide

/-- What stands after an expression in a rendering parts it from the text around it. -/
theorem parted_of_mem {c : Char} (hc : c ∈ [' ', '(', ')', ',', ';']) {rest : List Char} :
    Parted (c :: rest) := by
  simp only [List.mem_cons, List.not_mem_nil, or_false] at hc
  rw [parted_cons]
  rcases hc with rfl | rfl | rfl | rfl | rfl <;> decide

theorem Written.head_ne (h : Written tree tokens) {rest : List Char} :
    ∀ c ∈ (tree.render.toList ++ rest).head?, c ≠ '=' := by
  obtain ⟨c, more, ht, hc⟩ := h.starts
  simpa [ht] using hc

theorem written_unary {mark : Sign} (hm : mark = .bang ∨ mark = .minus) (h : Written tree tokens) :
    Written (.unary (.ofSign mark) mark.spelling tree)
      (.ofSign .leftParen :: (.ofSign mark :: tokens) ++ [.ofSign .rightParen]) where
  derives := by
    have hk : (Token.ofSign mark).kind = .sign .bang ∨ (Token.ofSign mark).kind = .sign .minus := by
      simpa using hm
    have hunary := Derives.unary hk (h.derives.loosen (by decide))
    have hgroup := Derives.group (Token.kind_ofSign .leftParen) (hunary.loosen (by decide))
      (Token.kind_ofSign .rightParen)
    rw [Expression.renderedNesting, Nat.add_comm]
    exact hgroup
  readable := by simp [h.readable]
  braceless := by rcases hm with rfl | rfl <;> simp [h.braceless]
  scans {rest} hrest := by
    have htext : (Expression.unary (.ofSign mark) mark.spelling tree).render.toList ++ rest =
        '(' :: (mark.spelling.toList ++ (tree.render.toList ++ ')' :: rest)) := by
      simp [Expression.render]
    rw [htext, munch_leftParen, munch_ofSign mark h.head_ne, h.scans (parted_of_mem (by decide)),
      munch_rightParen]
    simp
  starts := ⟨'(', _, by simp [Expression.render]; rfl, by decide⟩

theorem written_binary {stratum : Stratum} {mark : Sign} (hm : mark ∈ stratum.operators)
    (hl : Written left tokens) (hr : Written right more) :
    Written (.binary (.ofSign mark) left mark.spelling right)
      (.ofSign .leftParen :: (tokens ++ .ofSign mark :: more) ++ [.ofSign .rightParen]) where
  derives := by
    have hbinary := Derives.binary (hl.derives.loosen (Precedence.level_le_call _))
      (Token.kind_ofSign mark) hm (hr.derives.loosen (Precedence.level_le_call _))
    have hgroup := Derives.group (Token.kind_ofSign .leftParen)
      (hbinary.loosen (Stratum.equality_le _)) (Token.kind_ofSign .rightParen)
    have hnesting : (Expression.binary (.ofSign mark) left mark.spelling right).renderedNesting =
        max left.renderedNesting (right.renderedNesting + 1) + 1 := by
      rw [Expression.renderedNesting]
      omega
    rw [hnesting]
    exact hgroup
  readable := by simp [hl.readable, hr.readable]
  braceless := by
    have hbrace := Stratum.ne_brace_of_mem hm
    simp [hl.braceless, hr.braceless, hbrace]
  scans {rest} hrest := by
    have htext : (Expression.binary (.ofSign mark) left mark.spelling right).render.toList ++ rest =
        '(' :: (left.render.toList ++ ' ' :: (mark.spelling.toList ++
          ' ' :: (right.render.toList ++ ')' :: rest))) := by
      simp [Expression.render]
    rw [htext, munch_leftParen, hl.scans (parted_of_mem (by decide)), munch_space,
      munch_ofSign mark (by simp), munch_space, hr.scans (parted_of_mem (by decide)),
      munch_rightParen]
    simp
  starts := ⟨'(', _, by simp [Expression.render]; rfl, by decide⟩

theorem written_call (h : Written callee tokens) (ha : WrittenArguments trees n more) :
    Written (.call (.ofSign .leftParen) callee trees)
      (tokens ++ .ofSign .leftParen :: more ++ [.ofSign .rightParen]) where
  derives := by
    have hcall := Derives.call h.derives (Token.kind_ofSign .leftParen) ha.derives
      (Token.kind_ofSign .rightParen)
    have hpos := h.derives.nesting_pos ⟨_, _, rfl⟩
    have hargs := ha.nesting_eq
    have hnesting : (Expression.call (.ofSign .leftParen) callee trees).renderedNesting =
        max callee.renderedNesting (n + 1) := by
      rw [Expression.renderedNesting]
      omega
    rw [hnesting]
    exact hcall
  readable := by simp [h.readable, ha.readable]
  braceless := by simp [h.braceless, ha.braceless]
  scans {rest} hrest := by
    have htext : (Expression.call (.ofSign .leftParen) callee trees).render.toList ++ rest =
        callee.render.toList ++ '(' ::
          ((commaSeparated (Expression.renderEach trees)).toList ++ ')' :: rest) := by
      simp [Expression.render]
    rw [htext, h.scans (parted_of_mem (by decide)), munch_leftParen, ha.scans, munch_rightParen]
    simp
  starts := by
    obtain ⟨c, rest, ht, hc⟩ := h.starts
    exact ⟨c, _, by simp [Expression.render, ht]; rfl, hc⟩

theorem written_noArguments : WrittenArguments [] 0 [] where
  derives := .noArguments
  nesting_eq := rfl
  readable := readable_nil
  braceless := braceless_nil
  scans := by simp [commaSeparated, Expression.renderEach]

theorem written_noOthers : WrittenOthers [] 0 [] where
  derives := .noOtherArguments
  nesting_eq := rfl
  readable := readable_nil
  braceless := braceless_nil
  scans := by simp [otherText]

/-- After an argument come more of them or the closing parenthesis. -/
theorem parted_otherText (trees : List Expression) {rest : List Char} :
    Parted (otherText trees ++ ')' :: rest) := by
  cases trees with
  | nil => exact parted_of_mem (by decide)
  | cons tree trees => exact parted_of_mem (by decide)

theorem written_arguments (h : Written tree tokens) (ho : WrittenOthers others n more) :
    WrittenArguments (tree :: others) (max tree.renderedNesting n) (tokens ++ more) where
  derives := .arguments (h.derives.loosen (by decide)) ho.derives
  nesting_eq := by
    have := ho.nesting_eq
    rw [Expression.argumentsNesting]
    omega
  readable := by simp [h.readable, ho.readable]
  braceless := by simp [h.braceless, ho.braceless]
  scans {rest} := by
    rw [toList_commaSeparated, List.append_assoc, h.scans (parted_otherText others), ho.scans,
      List.append_assoc]

theorem written_others (h : Written tree tokens) (ho : WrittenOthers others n more) :
    WrittenOthers (tree :: others) (max tree.renderedNesting n)
      (.ofSign .comma :: tokens ++ more) where
  derives := .otherArguments rfl (h.derives.loosen (by decide)) ho.derives
  nesting_eq := by
    have := ho.nesting_eq
    rw [Expression.argumentsNesting]
    omega
  readable := by simp [h.readable, ho.readable]
  braceless := by simp [h.braceless, ho.braceless]
  scans {rest} := by
    have htext : otherText (tree :: others) ++ ')' :: rest =
        ',' :: ' ' :: (tree.render.toList ++ (otherText others ++ ')' :: rest)) := by
      simp [otherText]
    rw [htext, munch_lone .comma rfl (by decide) (by decide), munch_space,
      h.scans (parted_otherText others), ho.scans]
    simp

end Expressions

/-! ## Written statements -/

/-- The rendering of a statement scans to tokens that derive it again, up to its start. -/
structure WrittenStatement (closed : Bool) (tree again : Statement) (value : Expression)
    (tokens : List Token) : Prop where
  value_eq : tree.value? = some value
  closed_eq : tree.isExpression = !closed
  derives : Derives (.statement closed again) value.renderedNesting tokens
  similar : again.forgetStart = tree.forgetStart
  readable : Readable tokens
  braceless : Braceless tokens
  scans : ∀ {rest : List Char}, (closed = true ∨ rest = []) →
    munch (tree.render.toList ++ rest) = tokens ++ munch rest

/-- The same for statements in a row. -/
structure WrittenStatements (trees again : List Statement) (nesting : Nat) (tokens : List Token) :
    Prop where
  derives : Derives (.statements again) nesting tokens
  nesting_le : ∀ bound, nesting ≤ bound ↔
    ∀ tree ∈ trees, ∀ value ∈ tree.value?, value.renderedNesting ≤ bound
  similar : again.map Statement.forgetStart = trees.map Statement.forgetStart
  readable : Readable tokens
  braceless : Braceless tokens
  scans : munch (Statement.renderAll trees).toList = tokens ++ [Token.eof]

section Statements

variable {value : Expression} {tree again : Statement} {trees others : List Statement}
  {m n : Nat} {tokens more : List Token} {closed : Bool}

theorem written_binding {word name : Token} (hw : word.kind = .keyword .letWord)
    (hn : name.kind = .ident) (hvw : word.Valid) (hvn : name.Valid) (h : Written value tokens) :
    WrittenStatement true (.binding word ⟨name, name.literal⟩ (some value))
      (.binding word ⟨name, name.literal⟩ (some value)) value
      (word :: name :: .ofSign .assign :: tokens ++ [.ofSign .semicolon]) where
  value_eq := rfl
  closed_eq := rfl
  derives := .closed (.binding hw hn rfl (h.derives.loosen (by decide))) rfl
  similar := rfl
  readable := by simp [h.readable, hw, hn]
  braceless := by simp [h.braceless, hw, hn]
  scans {rest} _ := by
    have htext : (Statement.binding word ⟨name, name.literal⟩ (some value)).render.toList ++ rest =
        word.literal.toList ++ ' ' :: (name.literal.toList ++ ' ' ::
          (Sign.assign.spelling.toList ++ ' ' :: (value.render.toList ++ ';' :: rest))) := by
      simp [Statement.render, Identifier.render, Sign.spelling, Sign.chars]
    rw [htext, munch_parted hvw (by simp [hw]) (parted_of_mem (by decide)), munch_space,
      munch_parted hvn (by simp [hn]) (parted_of_mem (by decide)), munch_space,
      munch_ofSign .assign (by simp), munch_space, h.scans (parted_of_mem (by decide)),
      munch_lone .semicolon rfl (by decide) (by decide)]
    simp

theorem written_result {word : Token} (hw : word.kind = .keyword .returnWord) (hvw : word.Valid)
    (h : Written value tokens) :
    WrittenStatement true (.result word (some value)) (.result word (some value)) value
      (word :: tokens ++ [.ofSign .semicolon]) where
  value_eq := rfl
  closed_eq := rfl
  derives := .closed (.result hw (h.derives.loosen (by decide))) rfl
  similar := rfl
  readable := by simp [h.readable, hw]
  braceless := by simp [h.braceless, hw]
  scans {rest} _ := by
    have htext : (Statement.result word (some value)).render.toList ++ rest =
        word.literal.toList ++ ' ' :: (value.render.toList ++ ';' :: rest) := by
      simp [Statement.render]
    rw [htext, munch_parted hvw (by simp [hw]) (parted_of_mem (by decide)), munch_space,
      h.scans (parted_of_mem (by decide)), munch_lone .semicolon rfl (by decide) (by decide)]
    simp

theorem written_bare {start : Token} (h : Written value tokens) :
    ∃ again, WrittenStatement false (.expression start (some value)) again value tokens := by
  have hstart := h.derives.starts
  cases tokens with
  | nil => simp [Phrase.Starts] at hstart
  | cons first others =>
      exact ⟨.expression first (some value), {
        value_eq := rfl
        closed_eq := rfl
        derives := .bare (h.derives.loosen (by decide))
        similar := rfl
        readable := h.readable
        braceless := h.braceless
        scans := fun hrest => by
          obtain rfl := hrest.resolve_left (by simp)
          exact h.scans parted_nil }⟩

theorem written_noStatements : WrittenStatements [] [] 0 [] where
  derives := .noStatements
  nesting_le := by simp
  similar := rfl
  readable := readable_nil
  braceless := braceless_nil
  scans := by
    simp only [Statement.renderAll]
    exact munch_of_none rfl

/-- Only the last statement of a rendering may lack a semicolon. -/
theorem written_statements {statements : List Statement}
    (h : WrittenStatement closed tree again value tokens)
    (ho : WrittenStatements others statements n more) (hlast : closed = true ∨ others = []) :
    WrittenStatements (tree :: others) (again :: statements) (max value.renderedNesting n)
      (tokens ++ more) where
  derives := by
    -- Nothing comes after a statement without a semicolon.
    refine .statements h.derives ho.derives (hlast.imp_right ?_)
    rintro rfl
    have hnil : statements = [] := by simpa using ho.similar
    subst hnil
    have hmore : more = [] := by
      cases ho.derives
      rfl
    simp [hmore]
  nesting_le bound := by
    rw [Nat.max_le, ho.nesting_le, List.forall_mem_cons]
    simp [h.value_eq]
  similar := by simp [h.similar, ho.similar]
  readable := by simp [h.readable, ho.readable]
  braceless := by simp [h.braceless, ho.braceless]
  scans := by
    have hrest : closed = true ∨ (Statement.renderAll others).toList = [] :=
      hlast.imp_right fun ho => by simp [ho, Statement.renderAll]
    rw [Statement.renderAll, String.toList_append, h.scans hrest, ho.scans, List.append_assoc]

/-- The same where all statements but the last are known to be no expressions. -/
theorem written_row {statements : List Statement}
    (h : WrittenStatement closed tree again value tokens)
    (ho : WrittenStatements others statements n more)
    (hlast : ∀ statement ∈ (tree :: others).dropLast, statement.isExpression = false) :
    WrittenStatements (tree :: others) (again :: statements) (max value.renderedNesting n)
      (tokens ++ more) := by
  refine written_statements h ho ?_
  cases others with
  | nil => exact .inr rfl
  | cons second rest =>
      have hexpression : tree.isExpression = false := hlast tree (by simp)
      exact .inl (by simpa [h.closed_eq] using hexpression)

end Statements

theorem forall_mem_dropLast {α : Type} {P : α → Prop} {first : α} {others : List α}
    (h : ∀ item ∈ (first :: others).dropLast, P item) : ∀ item ∈ others.dropLast, P item := by
  intro item hm
  refine h item ?_
  cases others with
  | nil => cases hm
  | cons => exact List.mem_cons_of_mem _ hm

/-! ## Programs -/

/-- What rendering makes of a phrase that was derived. -/
def Rewrites : Phrase → Prop
  | .expression _ tree => tree.isPlain = true → ∃ tokens, Written tree tokens
  | .arguments trees => Expression.arePlain trees = true →
      ∃ nesting tokens, WrittenArguments trees nesting tokens
  | .otherArguments trees => Expression.arePlain trees = true →
      ∃ nesting tokens, WrittenOthers trees nesting tokens
  | .block _ => True
  | .statement _ tree => (∀ value ∈ tree.value?, value.isPlain = true) →
      ∃ closed again value tokens, WrittenStatement closed tree again value tokens
  | .statements trees => (∀ tree ∈ trees, ∀ value ∈ tree.value?, value.isPlain = true) →
      (∀ tree ∈ trees.dropLast, tree.isExpression = false) →
      ∃ again nesting tokens, WrittenStatements trees again nesting tokens

theorem rewrites_of_derives {phrase : Phrase} {nesting : Nat} {tokens : List Token}
    (h : Derives phrase nesting tokens) (hr : Readable tokens)
    (hv : ∀ token ∈ tokens, token.Valid) : Rewrites phrase := by
  induction h with
  | name hk =>
      exact fun _ => ⟨_, written_token (hv _ (by simp)) hr (by simp [hk]) (.name hk) rfl rfl⟩
  | integer hk =>
      exact fun _ => ⟨_, written_token (hv _ (by simp)) hr (by simp [hk]) (.integer hk) rfl rfl⟩
  | trueWord hk =>
      exact fun _ => ⟨_, written_token (hv _ (by simp)) hr (by simp [hk]) (.trueWord hk) rfl rfl⟩
  | falseWord hk =>
      exact fun _ => ⟨_, written_token (hv _ (by simp)) hr (by simp [hk]) (.falseWord hk) rfl rfl⟩
  | group _ _ _ ih =>
      simp only [readable_cons, readable_append, List.forall_mem_cons, List.forall_mem_append,
        List.cons_append] at hr hv
      exact ih hr.2.1 hv.2.1
  | tighter _ ih => exact ih hr hv
  | conditional | alternative | function => exact fun hp => by simp [Expression.isPlain] at hp
  | call _ ho _ _ ih ih' =>
      simp only [readable_cons, readable_append, List.forall_mem_cons, List.forall_mem_append]
        at hr hv
      intro hp
      simp only [Expression.isPlain, Bool.and_eq_true] at hp
      obtain ⟨_, hf⟩ := ih hr.1.1 hv.1.1 hp.1
      obtain ⟨_, _, ha⟩ := ih' hr.1.2.2 hv.1.2.2 hp.2
      obtain rfl := hv.1.2.1.eq_ofSign ho
      exact ⟨_, written_call hf ha⟩
  | unary ho _ ih =>
      rw [readable_cons] at hr
      rw [List.forall_mem_cons] at hv
      intro hp
      obtain ⟨_, h⟩ := ih hr.2 hv.2 hp
      rcases ho with ho | ho
      · obtain rfl := hv.1.eq_ofSign ho
        exact ⟨_, written_unary (.inl rfl) h⟩
      · obtain rfl := hv.1.eq_ofSign ho
        exact ⟨_, written_unary (.inr rfl) h⟩
  | binary _ ho hs _ ih ih' =>
      simp only [readable_cons, readable_append, List.forall_mem_cons, List.forall_mem_append]
        at hr hv
      intro hp
      simp only [Expression.isPlain, Bool.and_eq_true] at hp
      obtain ⟨_, hl⟩ := ih hr.1 hv.1 hp.1
      obtain ⟨_, hright⟩ := ih' hr.2.2 hv.2.2 hp.2
      obtain rfl := hv.2.1.eq_ofSign ho
      exact ⟨_, written_binary hs hl hright⟩
  | noArguments => exact fun _ => ⟨_, _, written_noArguments⟩
  | noOtherArguments => exact fun _ => ⟨_, _, written_noOthers⟩
  | arguments _ _ ih ih' =>
      rw [readable_append] at hr
      rw [List.forall_mem_append] at hv
      intro hp
      simp only [Expression.arePlain, Bool.and_eq_true] at hp
      obtain ⟨_, h⟩ := ih hr.1 hv.1 hp.1
      obtain ⟨_, _, ho⟩ := ih' hr.2 hv.2 hp.2
      exact ⟨_, _, written_arguments h ho⟩
  | otherArguments _ _ _ ih ih' =>
      simp only [readable_cons, readable_append, List.forall_mem_cons, List.forall_mem_append,
        List.cons_append] at hr hv
      intro hp
      simp only [Expression.arePlain, Bool.and_eq_true] at hp
      obtain ⟨_, h⟩ := ih hr.2.1 hv.2.1 hp.1
      obtain ⟨_, _, ho⟩ := ih' hr.2.2 hv.2.2 hp.2
      exact ⟨_, _, written_others h ho⟩
  | block => trivial
  | binding hw hn _ _ ih =>
      simp only [readable_cons, List.forall_mem_cons] at hr hv
      intro hp
      obtain ⟨_, h⟩ := ih hr.2.2.2 hv.2.2.2 (hp _ rfl)
      exact ⟨_, _, _, _, written_binding hw hn hv.1 hv.2.1 h⟩
  | result hw _ ih =>
      rw [readable_cons] at hr
      rw [List.forall_mem_cons] at hv
      intro hp
      obtain ⟨_, h⟩ := ih hr.2 hv.2 (hp _ rfl)
      exact ⟨_, _, _, _, written_result hw hv.1 h⟩
  | bare _ ih =>
      intro hp
      obtain ⟨_, h⟩ := ih hr hv (hp _ rfl)
      obtain ⟨_, h⟩ := written_bare h
      exact ⟨_, _, _, _, h⟩
  | closed _ _ ih =>
      rw [readable_append] at hr
      rw [List.forall_mem_append] at hv
      exact ih hr.1 hv.1
  | noStatements => exact fun _ _ => ⟨_, _, _, written_noStatements⟩
  | statements _ _ _ ih ih' =>
      rw [readable_append] at hr
      rw [List.forall_mem_append] at hv
      intro hp hlast
      rw [List.forall_mem_cons] at hp
      obtain ⟨closed, _, _, _, h⟩ := ih hr.1 hv.1 hp.1
      obtain ⟨_, _, _, ho⟩ := ih' hr.2 hv.2 hp.2 (forall_mem_dropLast hlast)
      exact ⟨_, _, _, written_row h ho hlast⟩

/-- Parsing a rendering gives the program back unless its parentheses are too many, and then this is
what is reported. -/
theorem parse_render (source : String) (h : (parse source).errors = [])
    (hlast : ∀ tree ∈ (parse source).program.statements.dropLast, tree.isExpression = false)
    (hplain : ∀ tree ∈ (parse source).program.statements,
      ∀ value ∈ tree.value?, value.isPlain = true) :
    ((∀ tree ∈ (parse source).program.statements,
        ∀ value ∈ tree.value?, value.renderedNesting ≤ 100) →
      (parse (parse source).program.render).errors = [] ∧
      (parse (parse source).program.render).program.statements.map Statement.forgetStart =
        (parse source).program.statements.map Statement.forgetStart ∧
      (parse (parse source).program.render).program.render = (parse source).program.render) ∧
    ((∃ tree ∈ (parse source).program.statements,
        ∃ value ∈ tree.value?, 100 < value.renderedNesting) →
      "expression nested too deeply" ∈ (parse (parse source).program.render).errors) := by
  obtain ⟨_, tokens, hd, -, hr, ht⟩ := reads_source h
  have hv : ∀ token ∈ tokens, token.Valid := by
    intro token hm
    have hterminal := hd.isTerminal token hm
    have hmem : token ∈ tokenize source := by simp [ht, hm]
    refine valid_of_mem_tokenize hmem ?_ ?_ <;> intro hk <;>
      simp [hk, Kind.isTerminal] at hterminal
  obtain ⟨again, nesting, written, hw⟩ := rewrites_of_derives hd hr hv hplain hlast
  have hscan : tokenize (parse source).program.render = written ++ [Token.eof] :=
    (Scanner.map_token_drain (Scanner.ready_ofSource _)).trans hw.scans
  constructor
  · intro hle
    have hparse := parse_of_derives hw.derives ((hw.nesting_le 100).mpr hle) hw.readable hscan
    rw [hparse]
    refine ⟨rfl, hw.similar, ?_⟩
    show Statement.renderAll again = Statement.renderAll _
    rw [← Statement.renderAll_forgetStart again, hw.similar, Statement.renderAll_forgetStart]
  · rintro ⟨tree, hm, value, hvalue, hlt⟩
    refine tooDeep_mem_errors hw.derives hw.readable hw.braceless ?_ hscan
    refine Nat.lt_of_not_le fun hle => ?_
    exact Nat.not_lt.mpr ((hw.nesting_le 100).mp hle tree hm value hvalue) hlt

/-- Fifty operators before a name are read, but not the hundred levels that they are rendered as. -/
theorem parse_render_operators :
    (parse (parse "let x = -a; f(x) < 1").program.render).errors = [] ∧
    "expression nested too deeply" ∈ (parse
      (parse (String.ofList (List.replicate 50 '!' ++ ['x']))).program.render).errors :=
  ⟨((parse_render "let x = -a; f(x) < 1" (by decide +kernel) (by decide +kernel)
      (by decide +kernel)).1 (by decide +kernel)).1,
    (parse_render (String.ofList (List.replicate 50 '!' ++ ['x'])) (by decide +kernel)
      (by decide +kernel) (by decide +kernel)).2 (by decide +kernel)⟩

end MonkeyFront
