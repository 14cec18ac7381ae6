import MonkeyFront.Proofs.Parser.Completeness

/-!
# Expressions nested too deeply

An expression without blocks that is nested deeper than there is room for leaves one report, and the
parser goes on to the next semicolon. Whatever stands before the level too many is read as it is
derived, so the report is the only one.
-/

namespace MonkeyFront.Parser

open Rule Grammar

/-! ## The end of a statement -/

/-- The tokens from the next semicolon on. -/
def fromSemicolon (tokens : List Token) : List Token :=
  tokens.dropWhile (·.kind != .sign .semicolon)

/-- No block is closed, and no source ends, before the next semicolon. -/
def Clear (tokens : List Token) : Prop :=
  ∀ token ∈ tokens.takeWhile (·.kind != .sign .semicolon),
    token.kind ≠ .sign .rightBrace ∧ token.kind ≠ .eof

/-- Tokens among which no statement ends and no block is opened. -/
def Unbroken (tokens : List Token) : Prop :=
  ∀ token ∈ tokens, token.kind ≠ .sign .semicolon ∧ token.kind ≠ .sign .leftBrace

@[simp] theorem unbroken_nil : Unbroken [] := by simp [Unbroken]

@[simp] theorem unbroken_append {tokens more : List Token} :
    Unbroken (tokens ++ more) ↔ Unbroken tokens ∧ Unbroken more :=
  List.forall_mem_append

@[simp] theorem unbroken_cons {token : Token} {tokens : List Token} :
    Unbroken (token :: tokens) ↔
      (token.kind ≠ .sign .semicolon ∧ token.kind ≠ .sign .leftBrace) ∧ Unbroken tokens :=
  List.forall_mem_cons

theorem fromSemicolon_append {tokens rest : List Token} (h : Unbroken tokens) :
    fromSemicolon (tokens ++ rest) = fromSemicolon rest := by
  unfold fromSemicolon
  exact List.dropWhile_append_of_pos fun token hm => by simp [(h token hm).1]

theorem Clear.of_append {tokens rest : List Token} (h : Unbroken tokens)
    (hc : Clear (tokens ++ rest)) : Clear rest := by
  intro token hm
  refine hc token ?_
  rw [List.takeWhile_append_of_pos fun token hm => by simp [(h token hm).1]]
  exact List.mem_append_right _ hm

theorem map_fromStatementEnd {lexemes : List Lexeme} (h : Clear (lexemes.map (·.token))) :
    (fromStatementEnd lexemes).map (·.token) = fromSemicolon (lexemes.map (·.token)) := by
  induction lexemes with
  | nil => rfl
  | cons first others ih =>
      by_cases hs : first.token.kind = .sign .semicolon
      · simp [fromStatementEnd, fromSemicolon, Lexeme.kind, hs]
      have hc : Clear (first.token :: others.map (·.token)) := h
      have hrest : Clear (others.map (·.token)) := fun token hm => hc token (by simp [hs, hm])
      have heof : first.token.kind ≠ .eof := (hc first.token (by simp [hs])).2
      -- A closing brace next would lie before the semicolon.
      have hbrace : ¬ others.head?.map (·.kind) = some (.sign .rightBrace) := by
        cases others with
        | nil => simp
        | cons second more =>
            intro hk
            have hk : second.token.kind = .sign .rightBrace := by
              simpa [Lexeme.kind] using hk
            exact (hc second.token (by simp [hs, hk])).1 hk
      rw [fromStatementEnd, if_neg (by simp only [Lexeme.kind] at *; simp [hs, heof, hbrace]),
        ih hrest]
      simp [fromSemicolon, hs]

theorem tokens_skipStatement {parser : Parser} (h : Clear parser.tokens) :
    parser.skipStatement.tokens = fromSemicolon parser.tokens :=
  map_fromStatementEnd h

/-! ## Refusals -/

/-- A rule that was run here gave up on a level too many and went on to the next semicolon. -/
def Refused {α : Type} (parser : Parser) (outcome : Option α × Parser) : Prop :=
  ∃ remaining after, outcome = (none, after) ∧
    after.reports = parser.reports.push ⟨.tooDeep, remaining⟩ ∧
    after.tokens = fromSemicolon parser.tokens

/-- A level that starts with these tokens is refused if they are nested deeper than there is room
for. -/
def OverflowsLevel (stratum : Stratum) (nesting : Nat) (tokens : List Token) : Prop :=
  ∀ {room : Nat} {bound : Precedence} {parser : Parser} {rest : List Token}, room + 1 < nesting →
    stratum.Fits bound → bound < .call → parser.tokens = tokens ++ rest → Clear parser.tokens →
    Refused parser (level (nestedIn room) bound parser)

/-- The same for arguments, from the opening parenthesis. -/
def OverflowsArguments (nesting : Nat) (tokens : List Token) : Prop :=
  ∀ {room : Nat} {parser : Parser} {opening : Token} {rest : List Token}, room < nesting →
    opening.kind = .sign .leftParen → parser.tokens = opening :: tokens ++ rest →
    Clear parser.tokens → Refused parser (arguments (nestedIn room) parser)

/-- The same for any part of an expression. -/
def Overflows : Phrase → Nat → List Token → Prop
  | .expression stratum _, nesting, tokens => OverflowsLevel stratum nesting tokens
  | .arguments _, nesting, tokens => OverflowsArguments nesting tokens
  | .otherArguments _, nesting, tokens => ∀ {room : Nat} {parser : Parser} {rest : List Token},
      room < nesting → parser.advance.tokens = tokens ++ rest → Clear parser.advance.tokens →
      Refused parser.advance (otherArguments (nestedIn room) parser)
  | _, _, _ => True

section Rules

variable {α β : Type} {room nesting : Nat} {bound : Precedence} {parser middle : Parser}
  {tokens more read rest : List Token}

theorem Refused.bind {rule : Rule α} (h : Refused parser (rule middle)) (next : α → Rule β) :
    Refused parser ((rule >>= next) middle) := by
  obtain ⟨remaining, after, he, hr, ht⟩ := h
  exact ⟨remaining, after, bind_of_none he next, hr, ht⟩

/-- A refusal after tokens that were read in order is one from where they started. -/
theorem Refused.of_spans {outcome : Option α × Parser} (h : Refused middle.advance outcome)
    (hs : parser.Spans read middle) (hq : Quiet parser middle) (hu : Unbroken read) :
    Refused parser outcome := by
  obtain ⟨remaining, after, he, hr, ht⟩ := h
  refine ⟨remaining, after, he, ?_, ?_⟩
  · rw [hr, reports_advance, show middle.reports = parser.reports from hq]
  · rw [ht, hs.tokens_eq, fromSemicolon_append hu]

theorem Clear.of_spans (h : Clear parser.tokens) (hs : parser.Spans read middle)
    (hu : Unbroken read) : Clear middle.advance.tokens := by
  rw [hs.tokens_eq] at h
  exact h.of_append hu

/-- An expression in a place of its own is refused as soon as there is no room for it. -/
theorem refused_expression {stratum : Stratum} (h : OverflowsLevel stratum nesting tokens)
    (hlt : room < nesting) (hfits : stratum.Fits bound) (hb : bound < .call)
    (ht : parser.tokens = tokens ++ rest) (hc : Clear parser.tokens) :
    Refused parser ((nestedIn room).parse bound parser) := by
  cases room with
  | zero => exact ⟨_, _, rfl, rfl, tokens_skipStatement hc⟩
  | succ room =>
      obtain ⟨remaining, after, he, hr, hstop⟩ : Refused parser.enter _ := h hlt hfits hb ht hc
      refine ⟨remaining, after.leave, ?_, hr, hstop⟩
      simp [nestedIn, inLevel, he]

theorem refused_placed (h : OverflowsLevel .equality nesting tokens) (hlt : room < nesting)
    (ht : parser.tokens = tokens ++ rest) (hc : Clear parser.tokens) :
    Refused parser ((nestedIn room).parse .lowest parser) :=
  refused_expression h hlt (.inl (Stratum.lowest_lt_strength _)) (by decide) ht hc

/-! ## Operands -/

theorem overflows_unary {operator : Token}
    (hk : operator.kind = .sign .bang ∨ operator.kind = .sign .minus)
    (h : OverflowsLevel .unary nesting tokens) :
    OverflowsLevel .unary (nesting + 1) (operator :: tokens) := by
  intro room bound parser rest hlt _ _ ht hc
  have hu : Unbroken [operator] := by rcases hk with hk | hk <;> simp [Unbroken, hk]
  have hspan : parser.Spans [operator] parser := .single ht
  have hinner : Refused parser.advance ((nestedIn room).parse .unary parser.advance) :=
    refused_expression h (Nat.lt_of_succ_lt_succ hlt) (.inr (.inl rfl)) (by decide)
      (hspan.advance_tokens ht) (hc.of_spans hspan hu)
  refine Refused.bind ?_ _
  rw [operand_run, currentToken_of_tokens ht]
  rcases hk with hk | hk <;> rw [hk] <;> exact (hinner.of_spans hspan rfl hu).bind _

theorem overflows_group {opening closing : Token} (ho : opening.kind = .sign .leftParen)
    (h : OverflowsLevel .equality nesting tokens) :
    OverflowsLevel .call (nesting + 1) (opening :: tokens ++ [closing]) := by
  intro room bound parser rest hlt _ _ ht hc
  have ht' : parser.tokens = [opening] ++ (tokens ++ closing :: rest) := by simpa using ht
  have hu : Unbroken [opening] := by simp [Unbroken, ho]
  have hspan : parser.Spans [opening] parser := .single ht'
  have hinner := refused_placed h (Nat.lt_of_succ_lt_succ hlt) (hspan.advance_tokens ht')
    (hc.of_spans hspan hu)
  refine Refused.bind ?_ _
  rw [operand_run, currentToken_of_tokens ht', ho]
  exact (hinner.of_spans hspan rfl hu).bind _

/-! ## Operators -/

theorem overflows_call {opening closing : Token} {callee : Expression} {m n : Nat}
    (ho : opening.kind = .sign .leftParen) (hc : Completes (.expression .call callee) m tokens)
    (h : OverflowsLevel .call m tokens) (ha : OverflowsArguments n more)
    (hu : Unbroken tokens) :
    OverflowsLevel .call (max m (n + 1)) (tokens ++ opening :: more ++ [closing]) := by
  intro room bound parser rest hlt hfits hb ht hclear
  have ht' : parser.tokens = tokens ++ opening :: (more ++ closing :: rest) := by simpa using ht
  -- Either the callee is nested too deeply itself, or it is read and the arguments are.
  by_cases hm : room + 1 < m
  · exact h hm hfits hb ht' hclear
  obtain ⟨middle, hs, hq, hl⟩ := hc (Nat.le_of_not_lt hm) hfits hb ht'
    (ends_cons _ (Precedence.level_le_call _) (by simp [ho]))
  have hopen := hs.advance_tokens ht'
  have hn : room < n := by omega
  have hinner := ha hn ho hopen (hclear.of_spans hs hu)
  rw [hl, climb_call hopen ho hb]
  exact ((hinner.of_spans hs hq hu).bind _).bind _

theorem overflows_binary {stratum : Stratum} {operator : Token} {sign : Sign} {left : Expression}
    {m n : Nat} (ho : operator.kind = .sign sign) (hs : sign ∈ stratum.operators)
    (hc : Completes (.expression stratum left) m tokens)
    (hleft : OverflowsLevel stratum m tokens) (hright : OverflowsLevel stratum.next n more)
    (hu : Unbroken (tokens ++ [operator])) :
    OverflowsLevel stratum (max m (n + 1)) (tokens ++ operator :: more) := by
  intro room bound parser rest hlt hfits hb ht hclear
  have ht' : parser.tokens = tokens ++ operator :: (more ++ rest) := by simpa using ht
  by_cases hm : room + 1 < m
  · exact hleft hm hfits hb ht' hclear
  obtain ⟨middle, hspan, hq, hl⟩ := hc (Nat.le_of_not_lt hm) hfits hb ht' (ends_operator ho hs)
  have hop := hspan.advance_tokens ht'
  have hgoOn := hspan.goOn ht'
  have hn : room < n := by omega
  have hinner := refused_expression hright hn (.inl (Stratum.lt_next_of_mem hs))
    (Stratum.lt_call_of_mem hs) (hgoOn.advance_tokens (by simpa using ht))
    (hclear.of_spans hgoOn hu)
  rw [hl, climb_binary hop ho hs hfits]
  exact ((hinner.of_spans hgoOn hq hu).bind _).bind _

/-! ## Arguments -/

/-- If arguments are left that are nested too deeply, then a comma comes next. -/
theorem ends_otherArguments {others : List Expression}
    (h : Derives (.otherArguments others) nesting more) (hlt : room < nesting) :
    Ends .lowest (more ++ rest) := by
  cases h with
  | noOtherArguments => exact absurd hlt (Nat.not_lt_zero _)
  | otherArguments hc => exact ends_mark hc rfl

theorem overflows_otherArguments {comma : Token} {tree : Expression} {others : List Expression}
    {m n : Nat} (hk : comma.kind = .sign .comma)
    (hd : Derives (.expression .equality tree) m tokens)
    (hc : Completes (.expression .equality tree) m tokens) (h : OverflowsLevel .equality m tokens)
    (hds : Derives (.otherArguments others) n more) (hs : Overflows (.otherArguments others) n more)
    (hu : Unbroken tokens) :
    Overflows (.otherArguments (tree :: others)) (max m n) (comma :: tokens ++ more) := by
  intro room parser rest hlt ht hclear
  have hcomma : Unbroken [comma] := by simp [Unbroken, hk]
  have hspan : parser.advance.Spans [comma] parser.advance := .single ht
  have hrest : parser.advance.advance.tokens = tokens ++ (more ++ rest) := by simp [ht]
  have hclear' := hclear.of_spans hspan hcomma
  rw [otherArguments, many_run (peekIs_iff.mpr (currentToken_of_tokens ht ▸ hk))]
  by_cases hm : room < m
  · exact ((refused_placed h hm hrest hclear').of_spans hspan rfl hcomma).bind _
  have hn : room < n := by omega
  obtain ⟨middle, hs', hq, hp⟩ :=
    yields_placed hd hc (Nat.le_of_not_lt hm) hrest (ends_otherArguments hds hn)
  have hitem : nextArgument (nestedIn room) parser = (some tree, middle) := hp
  have hall := hspan.trans hs'
  have hinner := hs hn (hs'.advance_tokens hrest) (hclear'.of_spans hs' hu)
  rw [bind_of_some hitem]
  exact (hinner.of_spans hall hq (unbroken_append.mpr ⟨hcomma, hu⟩)).bind _

theorem overflows_arguments {tree : Expression} {others : List Expression} {m n : Nat}
    (hd : Derives (.expression .equality tree) m tokens)
    (hc : Completes (.expression .equality tree) m tokens) (h : OverflowsLevel .equality m tokens)
    (hds : Derives (.otherArguments others) n more) (hs : Overflows (.otherArguments others) n more)
    (hu : Unbroken tokens) :
    OverflowsArguments (max m n) (tokens ++ more) := by
  intro room parser opening rest hlt ho ht hclear
  have hopen : Unbroken [opening] := by simp [Unbroken, ho]
  have hspan : parser.Spans [opening] parser := .single ht
  have hrest : parser.advance.tokens = tokens ++ (more ++ rest) := by simp [ht]
  have hclear' := hclear.of_spans hspan hopen
  rw [arguments_run (peekIs_rightParen_of_derives hd hrest)]
  by_cases hm : room < m
  · exact ((refused_placed h hm hrest hclear').of_spans hspan rfl hopen).bind _
  have hn : room < n := by omega
  obtain ⟨middle, hs', hq, hp⟩ :=
    yields_placed hd hc (Nat.le_of_not_lt hm) hrest (ends_otherArguments hds hn)
  have hall := hspan.trans hs'
  have hinner := hs hn (hs'.advance_tokens hrest) (hclear'.of_spans hs' hu)
  rw [bind_of_some hp]
  exact (hinner.of_spans hall hq (unbroken_append.mpr ⟨hopen, hu⟩)).bind _

/-! ## Derivations -/

/-- A block starts with a brace. -/
theorem not_unbroken_of_block {tree : Block} (hd : Derives (.block tree) nesting tokens) :
    ¬ Unbroken tokens := by
  cases hd with
  | block ho => simp [ho]

end Rules

/-- What is derived without blocks is refused if it is nested too deeply. -/
theorem overflows_of_derives {phrase : Phrase} {nesting : Nat} {tokens : List Token}
    (h : Derives phrase nesting tokens) (hr : Readable tokens) (hu : Unbroken tokens) :
    Overflows phrase nesting tokens := by
  induction h with
  | name | integer | trueWord | falseWord => exact fun hlt => absurd hlt (by omega)
  | group ho hd hc ih =>
      simp only [readable_cons, readable_append, unbroken_cons, unbroken_append,
        List.cons_append] at hr hu
      exact overflows_group ho (ih hr.2.1 hu.2.1)
  | conditional _ _ _ _ hb =>
      simp only [unbroken_cons, unbroken_append, List.cons_append] at hu
      exact absurd hu.2.2.2.2 (not_unbroken_of_block hb)
  | alternative _ _ _ _ _ _ ha =>
      simp only [unbroken_cons, unbroken_append, List.cons_append] at hu
      exact absurd hu.2.2.2.2 (not_unbroken_of_block ha)
  | function _ _ _ _ hb =>
      simp only [unbroken_cons, unbroken_append, List.cons_append] at hu
      exact absurd hu.2.2.2.2 (not_unbroken_of_block hb)
  | call hd ho ha hc ih ih' =>
      simp only [readable_cons, readable_append, unbroken_cons, unbroken_append] at hr hu
      exact overflows_call ho (completes_of_derives hd hr.1.1) (ih hr.1.1 hu.1.1)
        (ih' hr.1.2.2 hu.1.2.2) hu.1.1
  | unary ho hd ih =>
      rw [readable_cons] at hr
      rw [unbroken_cons] at hu
      exact overflows_unary ho (ih hr.2 hu.2)
  | binary hd ho hs hd' ih ih' =>
      simp only [readable_cons, readable_append, unbroken_cons, unbroken_append] at hr hu
      exact overflows_binary ho hs (completes_of_derives hd hr.1) (ih hr.1 hu.1)
        (ih' hr.2.2 hu.2.2) (unbroken_append.mpr ⟨hu.1, unbroken_cons.mpr ⟨hu.2.1, unbroken_nil⟩⟩)
  | tighter _ ih =>
      exact fun hlt hfits hb ht hc => ih hr hu hlt (Stratum.fits_next hfits) hb ht hc
  | noArguments | noOtherArguments => exact fun hlt => absurd hlt (Nat.not_lt_zero _)
  | arguments hd hds ih ih' =>
      rw [readable_append] at hr
      rw [unbroken_append] at hu
      exact overflows_arguments hd (completes_of_derives hd hr.1) (ih hr.1 hu.1) hds
        (ih' hr.2 hu.2) hu.1
  | otherArguments hc hd hds ih ih' =>
      simp only [readable_cons, readable_append, unbroken_cons, unbroken_append,
        List.cons_append] at hr hu
      exact overflows_otherArguments hc hd (completes_of_derives hd hr.2.1) (ih hr.2.1 hu.2.1) hds
        (ih' hr.2.2 hu.2.2) hu.2.1
  | block | binding | result | bare | closed | noStatements | statements => trivial

/-! ## Statements -/

/-- Tokens without blocks. -/
def Braceless (tokens : List Token) : Prop :=
  ∀ token ∈ tokens, token.kind ≠ .sign .leftBrace ∧ token.kind ≠ .sign .rightBrace

@[simp] theorem braceless_nil : Braceless [] := by simp [Braceless]

@[simp] theorem braceless_append {tokens more : List Token} :
    Braceless (tokens ++ more) ↔ Braceless tokens ∧ Braceless more :=
  List.forall_mem_append

@[simp] theorem braceless_cons {token : Token} {tokens : List Token} :
    Braceless (token :: tokens) ↔
      (token.kind ≠ .sign .leftBrace ∧ token.kind ≠ .sign .rightBrace) ∧ Braceless tokens :=
  List.forall_mem_cons

section Statements

variable {room nesting : Nat} {parser middle : Parser} {tokens more rest : List Token}

/-- Whether a phrase is an expression or its arguments. -/
def InExpression : Phrase → Prop
  | .expression .. | .arguments _ | .otherArguments _ => True
  | _ => False

/-- Only blocks hold semicolons inside an expression. -/
theorem unbroken_of_braceless {phrase : Phrase} (h : Derives phrase nesting tokens)
    (hb : Braceless tokens) : InExpression phrase → Unbroken tokens := by
  induction h with
  | block | binding | result | bare | closed | noStatements | statements => exact False.elim
  | conditional _ _ _ _ hd | function _ _ _ _ hd =>
      cases hd with
      | block ho => simp [ho] at hb
  | alternative _ _ _ _ _ _ hd =>
      cases hd with
      | block ho => simp [ho] at hb
  | unary ho _ ih => rcases ho with ho | ho <;> simp_all [InExpression]
  | binary _ ho hs _ ih ih' =>
      have hne := Stratum.ne_semicolon_of_mem hs
      simp_all [InExpression]
  | _ => simp_all [InExpression]

theorem overflowsLevel_of_derives {stratum : Stratum} {tree : Expression}
    (hd : Derives (.expression stratum tree) nesting tokens) (hr : Readable tokens)
    (hb : Braceless tokens) : OverflowsLevel stratum nesting tokens :=
  fun hlt hfits hbound ht hc =>
    overflows_of_derives hd hr (unbroken_of_braceless hd hb trivial) hlt hfits hbound ht hc

/-! ## Giving up a statement -/

theorem clear_fromSemicolon (tokens : List Token) : Clear (fromSemicolon tokens) := by
  have hnil := takeWhile_append_takeWhile (fun _ h => h)
    (p := fun token : Token => token.kind != .sign .semicolon) tokens
  intro token hm
  rw [fromSemicolon, List.append_right_eq_self.mp hnil] at hm
  cases hm

theorem fromSemicolon_fromSemicolon (tokens : List Token) :
    fromSemicolon (fromSemicolon tokens) = fromSemicolon tokens :=
  dropWhile_dropWhile (fun _ h => h) tokens

theorem Refused.skipping {α : Type} {rule : Rule α} (h : Refused parser (rule middle)) :
    Refused parser (onGivingUp skipStatement rule middle) := by
  obtain ⟨remaining, after, he, hr, ht⟩ := h
  have hclear : Clear after.tokens := ht ▸ clear_fromSemicolon _
  refine ⟨remaining, after.skipStatement, ?_, hr, ?_⟩
  · simp [onGivingUp, he]
  · rw [tokens_skipStatement hclear, ht, fromSemicolon_fromSemicolon]

theorem Refused.dropping {α : Type} {rule : Rule α} (h : Refused parser (rule middle)) :
    Refused parser (onGivingUp countDropped rule middle) := by
  obtain ⟨remaining, after, he, hr, ht⟩ := h
  exact ⟨remaining, after.countDropped, by simp [onGivingUp, he], hr, ht⟩

/-- The value of a statement after tokens that are part of no other statement. -/
theorem refused_value {value : Expression} {read : List Token}
    (hd : Derives (.expression .equality value) nesting tokens) (hr : Readable tokens)
    (hb : Braceless tokens) (hlt : room < nesting) (hs : parser.Spans read middle)
    (hq : Quiet parser middle) (hu : Unbroken read) (ht : parser.tokens = read ++ (tokens ++ rest))
    (hc : Clear parser.tokens) :
    Refused parser ((nestedIn room).parse .lowest middle.advance) := by
  have hlevel : OverflowsLevel .equality nesting tokens := overflowsLevel_of_derives hd hr hb
  have hvalue := refused_placed hlevel hlt (hs.advance_tokens ht) (hc.of_spans hs hu)
  exact hvalue.of_spans hs hq hu

theorem refused_unclosed {tree : Statement} (hd : Derives (.statement false tree) nesting tokens)
    (hr : Readable tokens) (hb : Braceless tokens) (hlt : room < nesting)
    (ht : parser.tokens = tokens ++ rest) (hc : Clear parser.tokens) :
    Refused parser (statement (nestedIn room) parser) := by
  cases hd with
  | @binding word name assign value _ tokens hw hn ha hd =>
      have hu : Unbroken [word, name, assign] := by simp [hw, hn, ha]
      simp only [readable_cons, braceless_cons] at hr hb
      have hfirst : parser.advance.tokens = name :: assign :: (tokens ++ rest) := by simp [ht]
      have hsecond : parser.advance.advance.tokens = assign :: (tokens ++ rest) := by simp [ht]
      have hspan : parser.Spans [word, name, assign] parser.advance.advance :=
        .step ht (.step hfirst (.single hsecond))
      have hvalue := refused_value hd hr.2.2.2 hb.2.2.2 hlt hspan rfl hu ht hc
      rw [statement_of_let (currentToken_of_tokens ht ▸ hw)]
      refine Refused.dropping (Refused.skipping ?_)
      rw [current_bind, bind_of_some (expect_of_kind (currentToken_of_tokens hfirst ▸ hn)),
        identifier_bind, bind_of_some (expect_of_kind (currentToken_of_tokens hsecond ▸ ha)),
        skip_bind]
      exact hvalue.bind _
  | @result word value _ tokens hw hd =>
      have hu : Unbroken [word] := by simp [hw]
      rw [readable_cons] at hr
      rw [braceless_cons] at hb
      have hvalue := refused_value hd hr.2 hb.2 hlt (.single ht) rfl hu ht hc
      rw [statement_of_return (currentToken_of_tokens ht ▸ hw)]
      refine Refused.dropping (Refused.skipping ?_)
      rw [current_bind, skip_bind]
      exact hvalue.bind _
  | @bare first value _ tokens hd =>
      obtain ⟨hl, hreturn⟩ := not_word_of_expression hd ht
      rw [statement_of_other hl hreturn]
      have hvalue := refused_placed (overflowsLevel_of_derives hd hr hb) hlt ht hc
      exact Refused.dropping (hvalue.bind _)

/-- A statement whose expression is nested too deeply is given up as a whole. -/
theorem refused_statement {closed : Bool} {tree : Statement}
    (hd : Derives (.statement closed tree) nesting tokens) (hr : Readable tokens)
    (hb : Braceless tokens) (hlt : room < nesting) (ht : parser.tokens = tokens ++ rest)
    (hc : Clear parser.tokens) : Refused parser (statement (nestedIn room) parser) := by
  cases closed with
  | false => exact refused_unclosed hd hr hb hlt ht hc
  | true =>
      cases hd with
      | closed hd hs =>
          rw [readable_append] at hr
          rw [braceless_append] at hb
          exact refused_unclosed hd hr.1 hb.1 hlt (by simpa using ht) hc

/-! ## Sources -/

theorem clear_of_derives {phrase : Phrase} (hd : Derives phrase nesting tokens)
    (hb : Braceless tokens) : Clear tokens := by
  intro token hm
  have hmem := List.takeWhile_sublist _ |>.mem hm
  refine ⟨(hb token hmem).2, fun hk => ?_⟩
  have := hd.isTerminal token hmem
  simp [hk, Kind.isTerminal] at this

/-- A report of a level too many. -/
def ReportsTooDeep (parser : Parser) : Prop :=
  ∃ report ∈ parser.reports.toList, report.diagnostic = .tooDeep

theorem ReportsTooDeep.advance (h : parser.ReportsTooDeep) : parser.advance.ReportsTooDeep := h

theorem ReportsTooDeep.of_grows {gaveUp : Bool} {last : Parser} (h : parser.ReportsTooDeep)
    (hg : Grows parser gaveUp last) : last.ReportsTooDeep := by
  obtain ⟨report, hm, hk⟩ := h
  exact ⟨report, hg.1.mem hm, hk⟩

theorem Refused.reportsTooDeep {α : Type} {outcome : Option α × Parser}
    (h : Refused parser outcome) : outcome.2.ReportsTooDeep := by
  obtain ⟨remaining, after, rfl, hr, -⟩ := h
  exact ⟨⟨.tooDeep, remaining⟩, by simp [hr], rfl⟩

theorem reportsTooDeep_of_statements {trees : List Statement}
    {takes : Takes beforeEnd (statementOrGap (nestedIn room))}
    (hd : Derives (.statements trees) nesting tokens) (hr : Readable tokens)
    (hb : Braceless tokens) (hlt : room < nesting) (ht : parser.tokens = tokens) :
    (many beforeEnd (statementOrGap (nestedIn room)) takes parser).2.ReportsTooDeep := by
  have hgrows : Keeps Grows (statementOrGap (nestedIn room)) :=
    contract_grows.statementOrGap (grows_nestedIn room)
  induction trees generalizing parser nesting tokens with
  | nil =>
      cases hd
      exact absurd hlt (Nat.not_lt_zero _)
  | cons tree others ih =>
      cases hd with
      | @statements closed _ _ m n tokens more head tail apart =>
          rw [readable_append] at hr
          rw [braceless_append] at hb
          have ht' : parser.tokens = tokens ++ (more ++ []) := by simpa using ht
          have hclear : Clear parser.tokens :=
            ht ▸ clear_of_derives (.statements head tail apart) (braceless_append.mpr hb)
          have hgo := beforeEnd_of_startsStatement parser (startsStatement_of_tokens head ht')
          -- The first statement that is nested too deeply leaves the report, and it stays there.
          by_cases hm : room < m
          · have hdrop := refused_statement head hr.1 hb.1 hm ht' hclear
            have hitem : statementOrGap (nestedIn room) parser =
                (some (statement (nestedIn room) parser).1,
                  (statement (nestedIn room) parser).2.advance) := rfl
            rw [many_snd hgo hitem]
            exact hdrop.reportsTooDeep.advance.of_grows (contract_grows.many hgrows _)
          · obtain ⟨middle, hs, -, hitem⟩ := yields_statement tail apart
              (completes_of_derives head hr.1) (Nat.le_of_not_lt hm) ht' (by simp)
            have hn : room < n := by omega
            rw [many_snd hgo hitem]
            exact ih tail hr.2 hb.2 hn ((hs.advance_tokens ht').trans (List.append_nil _))

/-- A program without blocks that is nested too deeply leaves a report that says so. -/
theorem tooDeep_mem_errors {source : String} {trees : List Statement}
    (hd : Derives (.statements trees) nesting tokens) (hr : Readable tokens)
    (hb : Braceless tokens) (hlt : maxDepth < nesting)
    (ht : tokenize source = tokens ++ [Token.eof]) :
    Diagnostic.tooDeep.message ∈ (parse source).errors := by
  have hparser : (ofSource source).tokens = tokens := List.append_cancel_right ht
  cases hrun : program (nestedIn maxDepth) (ofSource source) with
  | mk outcome after =>
      have hafter : after = (many beforeEnd (statementOrGap (nestedIn maxDepth))
          (takes_statementOrGap (nestedIn maxDepth) upcoming_ne_nil_of_beforeEnd)
          (ofSource source)).2 := by
        rw [← show (program (nestedIn maxDepth) (ofSource source)).2 = after by rw [hrun]]
        exact bind_pure_snd _ _ _
      have hreports : after.ReportsTooDeep :=
        hafter ▸ reportsTooDeep_of_statements hd hr hb hlt hparser
      obtain ⟨report, hm, hk⟩ := hreports
      rw [parse_of_run hrun]
      exact List.mem_map.mpr ⟨report, hm, by rw [hk]⟩

end Statements

end MonkeyFront.Parser
