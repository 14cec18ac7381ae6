import MonkeyFront.Proofs.Grammar.First
import MonkeyFront.Proofs.Grammar.Strata
import MonkeyFront.Proofs.Parser.Contract
import MonkeyFront.Proofs.Parser.Run
import MonkeyFront.Proofs.Scanner.Spelling

/-!
# Completeness of the parser

Tokens that derive a tree are read as that tree when there is room for their nesting. An expression
is followed through the operator loop: after the tokens of a left operand the loop goes on from the
operand's tree, so left operands and callees open no level of their own.
-/

namespace MonkeyFront.Parser

open Rule Grammar

/-- A rule yields a value from exactly these tokens, and reports nothing. -/
def Yields {α : Type} (rule : Rule α) (parser : Parser) (read : List Token) (value : α) : Prop :=
  ∃ after, parser.Spans read after ∧ Quiet parser after ∧ rule parser = (some value, after)

/-- A rule goes on from a run over some tokens to a run over more of them. -/
def GoesOn {α : Type} (rule : Rule α) (start : Parser) (read : List Token) (parser : Parser)
    (more : List Token) (value : α) : Prop :=
  ∃ after, start.Spans (read ++ more) after ∧ Quiet parser after ∧
    rule parser = (some value, after)

/-- What comes next neither binds tighter than a strength nor is a second block of a choice. -/
def Ends (strength : Precedence) (rest : List Token) : Prop :=
  ∀ token ∈ rest.head?,
    token.kind.precedence.level ≤ strength.level ∧ token.kind ≠ .keyword .elseWord

/-- The operator loop goes on from a tree after exactly these tokens, and nothing is reported. -/
def Climbs (room : Nat) (bound : Precedence) (parser : Parser) (read : List Token)
    (tree : Expression) : Prop :=
  ∃ after, parser.Spans read after ∧ Quiet parser after ∧
    level (nestedIn room) bound parser = climb (nestedIn room) bound tree after

/-- What it means for the parser that tokens derive a phrase. -/
def Completes : Phrase → Nat → List Token → Prop
  | .expression stratum tree, nesting, tokens => ∀ {room : Nat} {bound : Precedence}
      {parser : Parser} {rest : List Token}, nesting ≤ room + 1 → stratum.Fits bound →
      bound < .call → parser.tokens = tokens ++ rest → Ends stratum.strength rest →
      Climbs room bound parser tokens tree
  | .arguments trees, nesting, tokens => ∀ {room : Nat} {parser : Parser}
      {opening closing : Token} {rest : List Token}, nesting ≤ room →
      closing.kind = .sign .rightParen → parser.tokens = opening :: tokens ++ closing :: rest →
      Yields (arguments (nestedIn room)) parser (opening :: tokens ++ [closing]) trees
  | .otherArguments trees, nesting, tokens => ∀ {room : Nat} {start parser : Parser}
      {read : List Token} {closing : Token} {rest : List Token}, nesting ≤ room →
      closing.kind = .sign .rightParen → start.Spans read parser →
      parser.advance.tokens = tokens ++ closing :: rest →
      GoesOn (otherArguments (nestedIn room)) start read parser tokens trees
  | .block tree, nesting, tokens => ∀ {room : Nat} {parser : Parser} {rest : List Token},
      nesting ≤ room → parser.tokens = tokens ++ rest →
      Yields (block (nestedIn room)) parser tokens tree
  | .statement closed tree, nesting, tokens => ∀ {room : Nat} {parser : Parser}
      {rest : List Token}, nesting ≤ room → parser.tokens = tokens ++ rest →
      (closed = false → Ends .lowest rest) →
      ∃ after, parser.Spans tokens after ∧ Quiet parser after ∧
        statement (nestedIn room) parser =
          (some tree, if closed then after else after.pastOptional (.sign .semicolon))
  | .statements trees, nesting, tokens => ∀ {room : Nat} {parser : Parser} {rest : List Token}
      {goOn : Parser → Bool} {takes : Takes goOn (statementOrGap (nestedIn room))},
      nesting ≤ room → parser.tokens = tokens ++ rest →
      (∀ token ∈ rest.head?, token.kind = .sign .rightBrace) →
      (∀ p : Parser, p.currentToken.kind.startsStatement = true → goOn p = true) →
      (∀ p : Parser, p.tokens = rest → goOn p = false) →
      ∃ after, after.tokens = rest ∧ Quiet parser after ∧
        many goOn (statementOrGap (nestedIn room)) takes parser =
          (some (trees.map some), after)

/-! ## Looking ahead -/

section Rules

variable {room nesting : Nat} {bound : Precedence} {start parser after : Parser}
  {tokens more read rest : List Token}

theorem currentToken_of_head? {view : Token → Bool} (h : tokens.head?.any view = true)
    (ht : parser.tokens = tokens ++ rest) : view parser.currentToken = true := by
  cases tokens with
  | nil => simp at h
  | cons first others =>
      rw [currentToken_of_tokens ht]
      simpa using h

theorem startsExpression_of_tokens {stratum : Stratum} {tree : Expression}
    (hd : Derives (.expression stratum tree) nesting tokens) (ht : parser.tokens = tokens ++ rest) :
    parser.currentToken.kind.startsExpression = true :=
  currentToken_of_head? hd.starts ht

theorem startsStatement_of_tokens {closed : Bool} {tree : Statement}
    (hd : Derives (.statement closed tree) nesting tokens) (ht : parser.tokens = tokens ++ rest) :
    parser.currentToken.kind.startsStatement = true :=
  currentToken_of_head? hd.starts ht

theorem not_word_of_expression {stratum : Stratum} {tree : Expression}
    (hd : Derives (.expression stratum tree) nesting tokens) (ht : parser.tokens = tokens ++ rest) :
    parser.currentToken.kind ≠ .keyword .letWord ∧
      parser.currentToken.kind ≠ .keyword .returnWord := by
  have hstart := startsExpression_of_tokens hd ht
  constructor <;> intro hk <;> rw [hk] at hstart <;> exact absurd hstart (by decide)

theorem peekIs_rightParen_of_derives {stratum : Stratum} {tree : Expression}
    (hd : Derives (.expression stratum tree) nesting tokens)
    (ht : parser.advance.tokens = tokens ++ rest) : parser.peekIs (.sign .rightParen) = false := by
  rw [peekIs_eq_false_iff]
  intro hk
  have hstart := startsExpression_of_tokens hd ht
  rw [hk] at hstart
  exact absurd hstart (by decide)

theorem leftBrace_of_tokens {tree : Block} (hd : Derives (.block tree) nesting tokens)
    (ht : parser.tokens = tokens ++ rest) : parser.currentToken.kind = .sign .leftBrace := by
  cases hd with
  | block ho =>
      rw [currentToken_of_tokens ht]
      exact ho

theorem Ends.peek {strength : Precedence} (h : Ends strength rest) (hs : parser.Spans read after)
    (ht : parser.tokens = read ++ rest) :
    after.peekPrecedence.level ≤ strength.level ∧ after.peekIs (.keyword .elseWord) = false := by
  cases rest with
  | nil =>
      have hnil := hs.advance_tokens ht
      have hcur : after.advance.currentToken = Token.eof := by rw [currentToken_eq, hnil]; rfl
      constructor
      · rw [← currentPrecedence_advance, currentPrecedence, hcur]
        exact strength.level_pos
      · rw [peekIs_eq_false_iff, hcur]
        decide
  | cons token others =>
      obtain ⟨hp, hk⟩ := h token (by simp)
      constructor
      · rw [← currentPrecedence_advance, currentPrecedence, hs.advance_currentToken ht]
        exact hp
      · rw [peekIs_eq_false_iff, hs.advance_currentToken ht]
        exact hk

theorem Ends.mono {a b : Precedence} (h : Ends a rest) (hle : a.level ≤ b.level) : Ends b rest :=
  fun token hm => ⟨Nat.le_trans (h token hm).1 hle, (h token hm).2⟩

theorem ends_cons {token : Token} (strength : Precedence)
    (hp : token.kind.precedence.level ≤ strength.level)
    (hk : token.kind ≠ .keyword .elseWord) : Ends strength (token :: rest) := by
  simpa [Ends] using ⟨hp, hk⟩

theorem ends_mark {token : Token} {mark : Sign} (hk : token.kind = .sign mark)
    (hm : mark.precedence? = none) : Ends .lowest (token :: rest) := by
  refine ends_cons _ (Nat.le_of_eq ?_) (by simp [hk])
  rw [hk, Kind.precedence, Kind.precedence?, hm, Option.getD_none]

/-! ## Levels -/

/-- In a place of its own an expression is read up to its last token. -/
theorem yields_expression {stratum : Stratum} {tree : Expression}
    (hd : Derives (.expression stratum tree) nesting tokens)
    (h : Completes (.expression stratum tree) nesting tokens) (hle : nesting ≤ room)
    (hfits : stratum.Fits bound) (hb : bound < .call) (ht : parser.tokens = tokens ++ rest)
    (he : Ends bound rest) : Yields ((nestedIn room).parse bound) parser tokens tree := by
  have hpos := hd.nesting_pos ⟨_, _, rfl⟩
  obtain ⟨room, rfl⟩ : ∃ r, room = r + 1 := ⟨room - 1, by omega⟩
  obtain ⟨after, hs, hq, hl⟩ : Climbs room bound parser.enter tokens tree :=
    h hle hfits hb ht (he.mono (Stratum.level_le_of_fits hfits hb))
  refine ⟨after.leave, hs.leave, hq, ?_⟩
  rw [climb_stop (he.peek hs ht).1] at hl
  simp [nestedIn, inLevel, hl]

/-- The same for any expression where only the end stops it. -/
theorem yields_placed {tree : Expression} (hd : Derives (.expression .equality tree) nesting tokens)
    (h : Completes (.expression .equality tree) nesting tokens) (hle : nesting ≤ room)
    (ht : parser.tokens = tokens ++ rest) (he : Ends .lowest rest) :
    Yields ((nestedIn room).parse .lowest) parser tokens tree :=
  yields_expression hd h hle (.inl (Stratum.lowest_lt_strength _)) (by decide) ht he

/-! ## Operands -/

theorem Yields.climbs {tree : Expression}
    (h : Yields (operand (nestedIn room)) parser tokens tree) :
    Climbs room bound parser tokens tree := by
  obtain ⟨after, hs, hq, ho⟩ := h
  exact ⟨after, hs, hq, bind_of_some ho _⟩

theorem yields_name {token : Token} (hk : token.kind = .ident)
    (ht : parser.tokens = [token] ++ rest) :
    Yields (operand (nestedIn room)) parser [token] (.identifier ⟨token, token.literal⟩) := by
  obtain rfl := currentToken_of_tokens ht
  refine ⟨parser, .single ht, rfl, ?_⟩
  rw [operand_run, hk]

theorem yields_integer {token : Token} (hk : token.kind = .int) (hr : Readable [token])
    (ht : parser.tokens = [token] ++ rest) :
    Yields (operand (nestedIn room)) parser [token]
      (.integer token (decimalValue token.literal.toList)) := by
  obtain rfl := currentToken_of_tokens ht
  refine ⟨parser, .single ht, rfl, ?_⟩
  obtain ⟨value, hv⟩ := Option.isSome_iff_exists.mp (hr parser.currentToken (by simp) hk)
  obtain ⟨-, -, rfl, -⟩ := integerValue?_eq_some hv
  rw [operand_run, hk]
  simp only [integer, current_bind, hv, pure_run]

theorem yields_boolean {token : Token} {word : Keyword} (hk : token.kind = .keyword word)
    (hw : word = .trueWord ∨ word = .falseWord) (ht : parser.tokens = [token] ++ rest) :
    Yields (operand (nestedIn room)) parser [token]
      (.boolean token (word == .trueWord)) := by
  obtain rfl := currentToken_of_tokens ht
  refine ⟨parser, .single ht, rfl, ?_⟩
  rw [operand_run, hk]
  rcases hw with rfl | rfl <;> simp only [boolean, current_bind, hk, pure_run] <;> rfl

theorem completes_unary {operator : Token} {tree : Expression}
    (hk : operator.kind = .sign .bang ∨ operator.kind = .sign .minus)
    (hd : Derives (.expression .unary tree) nesting tokens)
    (h : Completes (.expression .unary tree) nesting tokens) :
    Completes (.expression .unary (.unary operator operator.literal tree)) (nesting + 1)
      (operator :: tokens) := by
  intro room bound parser rest hle _ _ ht he
  have hfirst : parser.advance.tokens = tokens ++ rest := by simp [ht]
  obtain ⟨after, hs, hq, hp⟩ : Yields ((nestedIn room).parse .unary) parser.advance tokens tree :=
    yields_expression hd h (Nat.le_of_succ_le_succ hle) (.inr (.inl rfl)) (by decide) hfirst he
  refine Yields.climbs ⟨after, .step ht hs, hq, ?_⟩
  obtain rfl := currentToken_of_tokens ht
  rw [operand_run]
  rcases hk with hk | hk <;> rw [hk] <;>
    simp only [unary, current_bind, skip_bind, bind_of_some hp, pure_run]

theorem completes_group {opening closing : Token} {tree : Expression}
    (ho : opening.kind = .sign .leftParen) (hc : closing.kind = .sign .rightParen)
    (hd : Derives (.expression .equality tree) nesting tokens)
    (h : Completes (.expression .equality tree) nesting tokens) :
    Completes (.expression .call tree) (nesting + 1) (opening :: tokens ++ [closing]) := by
  intro room bound parser rest hle _ _ ht _
  have ht' : parser.tokens = opening :: tokens ++ closing :: rest := by simpa using ht
  have hfirst : parser.advance.tokens = tokens ++ closing :: rest := by simp [ht']
  have hends : Ends .lowest (closing :: rest) := ends_mark hc rfl
  obtain ⟨middle, hs, hq, hp⟩ :=
    yields_placed hd h (Nat.le_of_succ_le_succ hle) hfirst hends
  have hclose := hs.advance_currentToken hfirst
  refine Yields.climbs ⟨middle.advance, (Spans.step ht hs).goOn ht', hq, ?_⟩
  rw [operand_run, currentToken_of_tokens ht, ho]
  simp only [group, skip_bind, bind_of_some hp, bind_of_some (expect_of_kind (hclose ▸ hc)),
    pure_run]

/-! ## Lists in parentheses -/

/-- A list ends at the closing parenthesis. -/
theorem goesOn_last {α : Type} {item : Rule α} {takes : Takes (peekIs (.sign .comma)) item}
    {closing : Token} (hclose : closing.kind = .sign .rightParen) (hs : start.Spans read parser)
    (ht : parser.advance.tokens = closing :: rest) :
    GoesOn (many (peekIs (.sign .comma)) item takes) start read parser [] [] := by
  refine ⟨parser, by simpa using hs, rfl, many_stop ?_⟩
  rw [peekIs_eq_false_iff, currentToken_of_tokens ht, hclose]
  decide

theorem goesOn_otherNames {names : List Identifier} (h : OtherNames names tokens)
    {closing : Token} (hclose : closing.kind = .sign .rightParen) (hs : start.Spans read parser)
    (ht : parser.advance.tokens = tokens ++ closing :: rest) :
    GoesOn (many (peekIs (.sign .comma)) nextParameter takes_nextParameter) start read parser tokens
      names := by
  induction h generalizing parser read with
  | none => exact goesOn_last hclose hs ht
  | @more comma name names tokens hc hn _ ih =>
      have hsecond : parser.advance.advance.tokens = name :: (tokens ++ closing :: rest) := by
        rw [tokens_advance, ht]
        rfl
      have hname := currentToken_of_tokens hsecond
      have hspan := (hs.trans (.single ht)).trans (.single hsecond)
      obtain ⟨after, hs, hq, hm⟩ := ih hspan (by rw [tokens_advance, hsecond]; rfl)
      refine ⟨after, by simpa using hs, hq, many_more ?_ ?_ hm⟩
      · rw [peekIs_iff, currentToken_of_tokens ht, hc]
      · rw [nextParameter, skip_bind, bind_of_some (expect_of_kind (hname ▸ hn)), ← hname]
        rfl

theorem yields_parameters {names : List Identifier} (h : Names names tokens)
    {opening closing : Token} (hclose : closing.kind = .sign .rightParen)
    (ht : parser.tokens = opening :: tokens ++ closing :: rest) :
    Yields parameters parser (opening :: tokens ++ [closing]) names := by
  cases h with
  | none =>
      have hcur := (Spans.single ht).advance_currentToken ht
      refine ⟨parser.advance, (Spans.single ht).goOn ht, rfl, ?_⟩
      rw [parameters, see_bind, if_pos (peekIs_iff.mpr (hcur ▸ hclose)), skip_bind, pure_run]
  | @some name names tokens hn others =>
      have hfirst : parser.advance.tokens = name :: (tokens ++ closing :: rest) := by simp [ht]
      have hname := currentToken_of_tokens hfirst
      have hopen : parser.peekIs (.sign .rightParen) = false := by
        rw [peekIs_eq_false_iff, hname, hn]
        decide
      obtain ⟨middle, hs, hq, hm⟩ := goesOn_otherNames others hclose
        ((Spans.single ht).trans (.single hfirst)) (by rw [tokens_advance, hfirst]; rfl)
      have hlast := hs.advance_currentToken (by simpa using ht)
      refine ⟨middle.advance, hs.goOn (by simpa using ht), hq, ?_⟩
      rw [parameters, see_bind, if_neg (by simp [hopen]),
        bind_of_some (expect_of_kind (hname ▸ hn)), identifier_bind, bind_of_some hm,
        bind_of_some (expect_of_kind (hlast ▸ hclose)), pure_run, hname]

/-- What comes after an argument ends it. -/
theorem ends_argument {others : List Expression} {closing : Token}
    (hclose : closing.kind = .sign .rightParen)
    (h : Derives (.otherArguments others) nesting more) :
    Ends .lowest (more ++ closing :: rest) := by
  cases h with
  | noOtherArguments => exact ends_mark hclose rfl
  | otherArguments hc => exact ends_mark hc rfl

theorem completes_otherArguments {comma : Token} {tree : Expression} {others : List Expression}
    {m n : Nat} (hc : comma.kind = .sign .comma)
    (hd : Derives (.expression .equality tree) m tokens)
    (hds : Derives (.otherArguments others) n more)
    (h : Completes (.expression .equality tree) m tokens)
    (hm : Completes (.otherArguments others) n more) :
    Completes (.otherArguments (tree :: others)) (max m n) (comma :: tokens ++ more) := by
  intro room start parser read closing rest hle hclose hs ht
  have hsecond : parser.advance.advance.tokens = tokens ++ (more ++ closing :: rest) := by
    simp [ht]
  obtain ⟨hlem, hlen⟩ := Nat.max_le.mp hle
  obtain ⟨middle, hspan, hq, hp⟩ :=
    yields_placed hd h hlem hsecond (ends_argument hclose hds)
  obtain ⟨after, hlast, hq', hmany⟩ := hm hlen hclose
    ((hs.trans (.single ht)).trans hspan) (hspan.advance_tokens hsecond)
  refine ⟨after, by simpa using hlast, hq'.trans hq, many_more ?_ ?_ hmany⟩
  · rw [peekIs_iff, currentToken_of_tokens ht, hc]
  · rw [nextArgument, skip_bind, skip_bind, hp]

theorem completes_noArguments : Completes (.arguments []) 0 [] := by
  intro room parser opening closing rest _ hclose ht
  have hcur := (Spans.single ht).advance_currentToken ht
  refine ⟨parser.advance, (Spans.single ht).goOn ht, rfl, ?_⟩
  rw [arguments, see_bind, if_pos (peekIs_iff.mpr (hcur ▸ hclose)), skip_bind, pure_run]

theorem completes_arguments {tree : Expression} {others : List Expression} {m n : Nat}
    (hd : Derives (.expression .equality tree) m tokens)
    (hds : Derives (.otherArguments others) n more)
    (h : Completes (.expression .equality tree) m tokens)
    (hm : Completes (.otherArguments others) n more) :
    Completes (.arguments (tree :: others)) (max m n) (tokens ++ more) := by
  intro room parser opening closing rest hle hclose ht
  have hfirst : parser.advance.tokens = tokens ++ (more ++ closing :: rest) := by simp [ht]
  obtain ⟨hlem, hlen⟩ := Nat.max_le.mp hle
  obtain ⟨middle, hspan, hq, hp⟩ :=
    yields_placed hd h hlem hfirst (ends_argument hclose hds)
  obtain ⟨last, hlast, hq', hmany⟩ := hm hlen hclose
    ((Spans.single ht).trans hspan) (hspan.advance_tokens hfirst)
  have hcur := hlast.advance_currentToken (by simpa using ht)
  refine ⟨last.advance, by simpa using hlast.goOn (by simpa using ht), hq'.trans hq, ?_⟩
  rw [arguments_run (peekIs_rightParen_of_derives hd hfirst), bind_of_some hp, bind_of_some hmany,
    bind_of_some (expect_of_kind (hcur ▸ hclose)), pure_run]

/-! ## Statements -/

/-- A semicolon after a statement is taken with it. -/
theorem completes_closed {semicolon : Token} {tree : Statement}
    (hk : semicolon.kind = .sign .semicolon)
    (h : Completes (.statement false tree) nesting tokens) :
    Completes (.statement true tree) nesting (tokens ++ [semicolon]) := by
  intro room parser rest hle ht _
  have ht' : parser.tokens = tokens ++ semicolon :: rest := by simpa using ht
  have hends : Ends .lowest (semicolon :: rest) := ends_mark hk rfl
  obtain ⟨middle, hs, hq, hrun⟩ := h hle ht' fun _ => hends
  refine ⟨middle.advance, hs.goOn ht', hq, ?_⟩
  have hpeek : middle.peekIs (.sign .semicolon) = true := by
    rw [peekIs_iff, hs.advance_currentToken ht', hk]
  simpa [pastOptional, hpeek] using hrun

theorem completes_binding {word name assign : Token} {value : Expression}
    (hw : word.kind = .keyword .letWord) (hn : name.kind = .ident)
    (ha : assign.kind = .sign .assign) (hd : Derives (.expression .equality value) nesting tokens)
    (h : Completes (.expression .equality value) nesting tokens) :
    Completes (.statement false (.binding word ⟨name, name.literal⟩ (some value))) nesting
      (word :: name :: assign :: tokens) := by
  intro room parser rest hle ht hends
  have hfirst : parser.advance.tokens = name :: assign :: tokens ++ rest := by simp [ht]
  have hsecond : parser.advance.advance.tokens = assign :: tokens ++ rest := by simp [ht]
  have hthird : parser.advance.advance.advance.tokens = tokens ++ rest := by simp [ht]
  obtain ⟨after, hs, hq, hp⟩ := yields_placed hd h hle hthird (hends rfl)
  refine ⟨after, .step ht (.step hfirst (.step hsecond hs)), hq, ?_⟩
  obtain rfl := currentToken_of_tokens ht
  obtain rfl := currentToken_of_tokens hfirst
  obtain rfl := currentToken_of_tokens hsecond
  rw [statement_of_let hw, onGivingUp_eq_some, binding, onGivingUp_eq_some, current_bind,
    bind_of_some (expect_of_kind hn), identifier_bind, bind_of_some (expect_of_kind ha), skip_bind,
    bind_of_some hp, skipOptional_bind, pure_run]
  rfl

theorem completes_result {word : Token} {value : Expression}
    (hw : word.kind = .keyword .returnWord)
    (hd : Derives (.expression .equality value) nesting tokens)
    (h : Completes (.expression .equality value) nesting tokens) :
    Completes (.statement false (.result word (some value))) nesting (word :: tokens) := by
  intro room parser rest hle ht hends
  have hfirst : parser.advance.tokens = tokens ++ rest := by simp [ht]
  obtain ⟨after, hs, hq, hp⟩ := yields_placed hd h hle hfirst (hends rfl)
  refine ⟨after, .step ht hs, hq, ?_⟩
  obtain rfl := currentToken_of_tokens ht
  rw [statement_of_return hw, onGivingUp_eq_some, result, onGivingUp_eq_some, current_bind,
    skip_bind, bind_of_some hp, skipOptional_bind, pure_run]
  rfl

theorem completes_bare {first : Token} {value : Expression}
    (hd : Derives (.expression .equality value) nesting (first :: tokens))
    (h : Completes (.expression .equality value) nesting (first :: tokens)) :
    Completes (.statement false (.expression first (some value))) nesting (first :: tokens) := by
  intro room parser rest hle ht hends
  obtain ⟨after, hs, hq, hp⟩ := yields_placed hd h hle ht (hends rfl)
  refine ⟨after, hs, hq, ?_⟩
  obtain ⟨hl, hr⟩ := not_word_of_expression hd ht
  rw [statement_of_other hl hr, onGivingUp_eq_some, expressionStatement, current_bind,
    bind_of_some hp, skipOptional_bind, pure_run, currentToken_of_tokens ht]
  rfl

/-- What a statement can start with neither closes a statement nor goes on with one, except for the
two tokens that have both roles. -/
theorem ends_of_startsStatement {token : Token} (h : token.kind.startsStatement = true)
    (hp : token.kind ≠ .sign .leftParen) (hm : token.kind ≠ .sign .minus) :
    Ends .lowest (token :: rest) ∧ token.kind ≠ .sign .semicolon := by
  have hkind : token.kind.precedence.level ≤ Precedence.lowest.level ∧
      token.kind ≠ .keyword .elseWord ∧ token.kind ≠ .sign .semicolon := by
    revert h hp hm
    cases token.kind with
    | keyword word => cases word <;> decide
    | sign mark => cases mark <;> decide
    | illegal | eof | ident | int => decide
    | other => simp [Kind.startsStatement, Kind.startsExpression]
  exact ⟨ends_cons _ hkind.1 hkind.2.1, hkind.2.2⟩

/-- What comes after a statement without a semicolon is no part of it. -/
theorem ends_statement {trees : List Statement} (hd : Derives (.statements trees) nesting more)
    (apart : ∀ token ∈ more.head?, token.kind ≠ .sign .leftParen ∧ token.kind ≠ .sign .minus)
    (hrest : more = [] → ∀ token ∈ rest.head?, token.kind = .sign .rightBrace) :
    Ends .lowest (more ++ rest) ∧
      ∀ token ∈ (more ++ rest).head?, token.kind ≠ .sign .semicolon := by
  cases more with
  | nil =>
      constructor
      · intro token hm
        rw [hrest rfl token hm]
        decide
      · intro token hm
        rw [hrest rfl token hm]
        decide
  | cons first others =>
      have hstart : first.kind.startsStatement = true := by
        simpa [Phrase.Starts] using hd.starts
      obtain ⟨hp, hm⟩ := apart first (by simp)
      have hends : Ends .lowest (first :: (others ++ rest)) ∧ first.kind ≠ .sign .semicolon :=
        ends_of_startsStatement hstart hp hm
      simpa using hends

theorem pastOptional_of_spans {kind : Kind} (hs : parser.Spans read after)
    (ht : parser.tokens = read ++ rest) (hk : kind ≠ .eof)
    (h : ∀ token ∈ rest.head?, token.kind ≠ kind) : after.pastOptional kind = after := by
  have hpeek : after.peekIs kind = false := by
    rw [peekIs_eq_false_iff, currentToken_eq, hs.advance_tokens ht]
    cases rest with
    | nil => exact fun he => hk he.symm
    | cons token others => exact h token (by simp)
  simp [pastOptional, hpeek]

theorem completes_noStatements : Completes (.statements []) 0 [] := by
  intro room parser rest goOn takes _ ht _ _ hstop
  exact ⟨parser, ht, rfl, many_stop (hstop parser ht)⟩

/-- A statement among others is read without what comes after it. -/
theorem yields_statement {closed : Bool} {tree : Statement} {others : List Statement} {n : Nat}
    (hds : Derives (.statements others) n more)
    (apart : closed = true ∨
      ∀ token ∈ more.head?, token.kind ≠ .sign .leftParen ∧ token.kind ≠ .sign .minus)
    (h : Completes (.statement closed tree) nesting tokens) (hle : nesting ≤ room)
    (ht : parser.tokens = tokens ++ (more ++ rest))
    (hrest : closed = false → more = [] → ∀ token ∈ rest.head?, token.kind = .sign .rightBrace) :
    ∃ after, parser.Spans tokens after ∧ Quiet parser after ∧
      statementOrGap (nestedIn room) parser = (some (some tree), after.advance) := by
  have hmore (hc : closed = false) :=
    ends_statement hds (apart.resolve_left (by simp [hc])) (hrest hc)
  obtain ⟨after, hs, hq, hrun⟩ := h hle ht fun hc => (hmore hc).1
  -- A semicolon would have been taken with the statement, so none is next.
  have hlast : statement (nestedIn room) parser = (some tree, after) := by
    cases closed with
    | true => exact hrun
    | false =>
        have := pastOptional_of_spans hs ht (by decide) (hmore rfl).2
        simpa [this] using hrun
  exact ⟨after, hs, hq, by rw [statementOrGap, attempt_bind, skip_bind, pure_run, hlast]⟩

theorem completes_statements {closed : Bool} {tree : Statement} {others : List Statement}
    {m n : Nat} (hd : Derives (.statement closed tree) m tokens) (hds : Derives (.statements others) n more)
    (apart : closed = true ∨
      ∀ token ∈ more.head?, token.kind ≠ .sign .leftParen ∧ token.kind ≠ .sign .minus)
    (h : Completes (.statement closed tree) m tokens) (hm : Completes (.statements others) n more) :
    Completes (.statements (tree :: others)) (max m n) (tokens ++ more) := by
  intro room parser rest goOn takes hle ht hrest hgo hstop
  obtain ⟨hlem, hlen⟩ := Nat.max_le.mp hle
  have ht' : parser.tokens = tokens ++ (more ++ rest) := by simpa using ht
  obtain ⟨middle, hs, hq, hitem⟩ := yields_statement hds apart h hlem ht' fun _ _ => hrest
  obtain ⟨after, hafter, hq', hmany⟩ :=
    @hm _ _ _ _ takes hlen (hs.advance_tokens ht') hrest hgo hstop
  exact ⟨after, hafter, hq'.trans hq,
    many_more (hgo parser (startsStatement_of_tokens hd ht')) hitem hmany⟩

theorem completes_block {opening closing : Token} {trees : List Statement}
    (hc : closing.kind = .sign .rightBrace)
    (h : Completes (.statements trees) nesting tokens) :
    Completes (.block (.mk opening trees)) nesting (opening :: tokens ++ [closing]) := by
  intro room parser rest hle ht
  have hfirst : parser.advance.tokens = tokens ++ closing :: rest := by simp [ht]
  have hstop (p : Parser) (hp : p.tokens = closing :: rest) : p.insideBlock = false := by
    have := currentIs_iff.mpr ((currentToken_of_tokens hp).symm ▸ hc)
    simp [insideBlock, this]
  have hgo (p : Parser) (hp : p.currentToken.kind.startsStatement = true) :
      p.insideBlock = true := by
    simp only [insideBlock, Bool.and_eq_true, Bool.not_eq_true', Bool.eq_false_iff, ne_eq,
      currentIs_iff]
    constructor <;> intro hk <;> rw [hk] at hp <;> exact absurd hp (by decide)
  obtain ⟨after, hafter, hq, hm⟩ := @h _ _ _ _ (takes_statementOrGap (nestedIn room)
    upcoming_ne_nil_of_insideBlock) hle hfirst (by simp [hc]) hgo hstop
  have hspan : parser.Spans (opening :: tokens ++ [closing]) after :=
    ⟨opening :: tokens, closing, rest, rfl, by simpa using ht, hafter⟩
  refine ⟨after, hspan, hq, ?_⟩
  have hend : ¬ after.currentIs .eof = true := by
    rw [currentIs_iff, currentToken_of_tokens hafter, hc]
    decide
  rw [block, current_bind, skip_bind, bind_of_some hm, see_bind, if_neg hend, pure_run,
    currentToken_of_tokens ht]
  simp

/-! ## Operands with blocks -/

theorem completes_function {word opening closing : Token} {parameters : List Identifier}
    {body : Block} (hw : word.kind = .keyword .fnWord) (ho : opening.kind = .sign .leftParen)
    (hn : Names parameters tokens) (hc : closing.kind = .sign .rightParen)
    (hd : Derives (.block body) nesting more) (h : Completes (.block body) nesting more) :
    Completes (.expression .call (.function word parameters body)) (nesting + 1)
      (word :: opening :: tokens ++ closing :: more) := by
  intro room bound parser rest hle _ _ ht _
  have hfirst : parser.advance.tokens = opening :: tokens ++ closing :: (more ++ rest) := by
    simp [ht]
  obtain ⟨middle, hs, hq, hp⟩ := yields_parameters hn hc hfirst
  have hrest : middle.advance.tokens = more ++ rest := by
    rw [hs.advance_tokens (by simpa using hfirst)]
  obtain ⟨after, hs', hq', hb⟩ := h (Nat.le_of_succ_le_succ hle) hrest
  refine Yields.climbs ⟨after, by simpa using Spans.step ht (hs.trans hs'), hq'.trans hq, ?_⟩
  have hbrace := leftBrace_of_tokens hd hrest
  obtain rfl := currentToken_of_tokens ht
  obtain rfl := currentToken_of_tokens hfirst
  rw [operand_run, hw]
  simp only [function, current_bind, bind_of_some (expect_of_kind ho), bind_of_some hp,
    bind_of_some (expect_of_kind hbrace), bind_of_some hb, pure_run]

/-- Up to the end of its first block a choice comes to the same with and without a second. -/
theorem conditional_run {word opening closing : Token} {condition : Expression}
    {consequence : Block} {m n : Nat} (ho : opening.kind = .sign .leftParen)
    (hd : Derives (.expression .equality condition) m tokens)
    (h : Completes (.expression .equality condition) m tokens) (hlem : m ≤ room)
    (hc : closing.kind = .sign .rightParen) (hdb : Derives (.block consequence) n more)
    (hb : Completes (.block consequence) n more) (hlen : n ≤ room)
    (ht : parser.tokens = word :: opening :: tokens ++ closing :: more ++ rest) :
    ∃ after, parser.Spans (word :: opening :: tokens ++ closing :: more) after ∧
      Quiet parser after ∧
      conditional (nestedIn room) parser =
        if after.peekIs (.keyword .elseWord) then
          (do
            expect (.sign .leftBrace)
            let alternative ← block (nestedIn room)
            return .conditional word condition consequence (some alternative) : Rule Expression)
            after.advance
        else (some (.conditional word condition consequence none), after) := by
  have hfirst : parser.advance.tokens = opening :: (tokens ++ closing :: (more ++ rest)) := by
    simp [ht]
  have hsecond : parser.advance.advance.tokens = tokens ++ closing :: (more ++ rest) := by
    simp [ht]
  have hends : Ends .lowest (closing :: (more ++ rest)) := ends_mark hc rfl
  obtain ⟨middle, hs, hq, hp⟩ := yields_placed hd h hlem hsecond hends
  have hclose := hs.advance_currentToken hsecond
  have hrest : middle.advance.advance.tokens = more ++ rest := by
    rw [tokens_advance, hs.advance_tokens hsecond]
    rfl
  obtain ⟨after, hs', hq', hbody⟩ := hb hlen hrest
  have hspan := (Spans.step hfirst hs).goOn (by simpa using hfirst)
  refine ⟨after, by simpa using Spans.step ht (hspan.trans hs'), hq'.trans hq, ?_⟩
  have hbrace := leftBrace_of_tokens hdb hrest
  obtain rfl := currentToken_of_tokens ht
  obtain rfl := currentToken_of_tokens hfirst
  rw [conditional, current_bind, bind_of_some (expect_of_kind ho), skip_bind, bind_of_some hp,
    bind_of_some (expect_of_kind (hclose ▸ hc)), bind_of_some (expect_of_kind hbrace),
    bind_of_some hbody, see_bind]
  split
  · rw [skip_bind]
  · rfl

theorem completes_conditional {word opening closing : Token} {condition : Expression}
    {consequence : Block} {m n : Nat} (hw : word.kind = .keyword .ifWord)
    (ho : opening.kind = .sign .leftParen) (hd : Derives (.expression .equality condition) m tokens)
    (h : Completes (.expression .equality condition) m tokens)
    (hc : closing.kind = .sign .rightParen) (hdb : Derives (.block consequence) n more)
    (hb : Completes (.block consequence) n more) :
    Completes (.expression .call (.conditional word condition consequence none))
      (max (m + 1) (n + 1)) (word :: opening :: tokens ++ closing :: more) := by
  intro room bound parser rest hle _ _ ht he
  obtain ⟨hlem, hlen⟩ := Nat.max_le.mp hle
  obtain ⟨after, hs, hq, hrun⟩ := conditional_run ho hd h (Nat.le_of_succ_le_succ hlem) hc hdb hb
    (Nat.le_of_succ_le_succ hlen) ht
  refine Yields.climbs ⟨after, hs, hq, ?_⟩
  rw [operand_run, currentToken_of_tokens ht, hw]
  simpa [(he.peek hs ht).2] using hrun

theorem completes_alternative {word opening closing elseWord : Token} {condition : Expression}
    {consequence alternative : Block} {m n k : Nat} {others : List Token}
    (hw : word.kind = .keyword .ifWord) (ho : opening.kind = .sign .leftParen)
    (hd : Derives (.expression .equality condition) m tokens)
    (h : Completes (.expression .equality condition) m tokens)
    (hc : closing.kind = .sign .rightParen) (hdb : Derives (.block consequence) n more)
    (hb : Completes (.block consequence) n more) (he : elseWord.kind = .keyword .elseWord)
    (hda : Derives (.block alternative) k others) (ha : Completes (.block alternative) k others) :
    Completes (.expression .call (.conditional word condition consequence (some alternative)))
      (max (max (m + 1) (n + 1)) (k + 1))
      (word :: opening :: tokens ++ closing :: more ++ elseWord :: others) := by
  intro room bound parser rest hle _ _ ht _
  obtain ⟨hle, hlek⟩ := Nat.max_le.mp hle
  obtain ⟨hlem, hlen⟩ := Nat.max_le.mp hle
  have ht' : parser.tokens =
      word :: opening :: tokens ++ closing :: more ++ elseWord :: (others ++ rest) := by
    simpa using ht
  obtain ⟨middle, hs, hq, hrun⟩ := conditional_run ho hd h (Nat.le_of_succ_le_succ hlem) hc hdb hb
    (Nat.le_of_succ_le_succ hlen) ht'
  have helse := hs.advance_currentToken ht'
  have hrest : middle.advance.advance.tokens = others ++ rest := by
    rw [tokens_advance, hs.advance_tokens ht']
    rfl
  obtain ⟨after, hs', hq', hbody⟩ := ha (Nat.le_of_succ_le_succ hlek) hrest
  refine Yields.climbs ⟨after, by simpa using (hs.goOn ht').trans hs', hq'.trans hq, ?_⟩
  rw [operand_run, currentToken_of_tokens ht, hw]
  rw [peekIs_iff.mpr (helse ▸ he), if_pos rfl,
    bind_of_some (expect_of_kind (leftBrace_of_tokens hda hrest)), bind_of_some hbody,
    pure_run] at hrun
  exact hrun

/-! ## Operators -/

theorem precedence_of_mem {stratum : Stratum} {operator : Token} {sign : Sign}
    (ho : operator.kind = .sign sign) (hs : sign ∈ stratum.operators) :
    operator.kind.precedence = stratum.strength := by
  rw [ho, Kind.precedence, Kind.precedence?, Stratum.precedence?_of_mem hs, Option.getD_some]

theorem ends_operator {stratum : Stratum} {operator : Token} {sign : Sign}
    (ho : operator.kind = .sign sign) (hs : sign ∈ stratum.operators) :
    Ends stratum.strength (operator :: rest) :=
  ends_cons _ (Nat.le_of_eq (by rw [precedence_of_mem ho hs])) (by simp [ho])

/-- The operator loop at an opening parenthesis. -/
theorem climb_call {nested : Nested} {opening : Token} {callee : Expression}
    (ht : after.advance.tokens = opening :: rest) (ho : opening.kind = .sign .leftParen)
    (hb : bound < .call) :
    climb nested bound callee after =
      ((do
        let arguments ← arguments nested
        return .call opening callee arguments : Rule Expression) >>= climb nested bound)
        after.advance := by
  have hcur := currentToken_of_tokens ht
  have hpeek : bound < after.peekPrecedence := by
    rw [← currentPrecedence_advance, currentPrecedence, hcur, ho]
    exact hb
  rw [climb_more hpeek]
  have hcall : continued nested callee after = call nested callee after.advance :=
    continued_of_leftParen (hcur ▸ ho)
  rw [call, current_bind, hcur] at hcall
  exact bind_congr_run hcall _

/-- The operator loop at a binary operator. -/
theorem climb_binary {nested : Nested} {stratum : Stratum} {operator : Token} {sign : Sign}
    {left : Expression} (ht : after.advance.tokens = operator :: rest)
    (ho : operator.kind = .sign sign) (hs : sign ∈ stratum.operators)
    (hfits : stratum.Fits bound) :
    climb nested bound left after =
      ((do
        let right ← nested.parse stratum.strength
        return .binary operator left operator.literal right : Rule Expression)
        >>= climb nested bound) after.advance.advance := by
  have hcur := currentToken_of_tokens ht
  have hstrength : operator.kind.precedence = stratum.strength := precedence_of_mem ho hs
  have hpeek : bound < after.peekPrecedence := by
    rw [← currentPrecedence_advance, currentPrecedence, hcur, hstrength]
    exact Stratum.lt_of_fits hs hfits
  have hparen : after.advance.currentToken.kind ≠ .sign .leftParen := by
    rw [hcur, ho]
    simpa using Stratum.ne_leftParen_of_mem hs
  rw [climb_more hpeek]
  have hbinary : continued nested left after = binary nested left after.advance :=
    continued_of_other hparen
  rw [binary, current_bind, see_bind, skip_bind, currentPrecedence, hcur, hstrength] at hbinary
  exact bind_congr_run hbinary _

theorem completes_call {opening closing : Token} {callee : Expression}
    {arguments : List Expression} {m n : Nat} (ho : opening.kind = .sign .leftParen)
    (hc : closing.kind = .sign .rightParen)
    (h : Completes (.expression .call callee) m tokens)
    (ha : Completes (.arguments arguments) n more) :
    Completes (.expression .call (.call opening callee arguments)) (max m (n + 1))
      (tokens ++ opening :: more ++ [closing]) := by
  intro room bound parser rest hle hfits hb ht _
  obtain ⟨hlem, hlen⟩ := Nat.max_le.mp hle
  have ht' : parser.tokens = tokens ++ opening :: (more ++ closing :: rest) := by simpa using ht
  obtain ⟨middle, hs, hq, hl⟩ := h hlem hfits hb ht'
    (ends_cons _ (Precedence.level_le_call _) (by simp [ho]))
  have hopen := hs.advance_tokens ht'
  obtain ⟨after, hs', hq', hrun⟩ := ha (Nat.le_of_succ_le_succ hlen) hc hopen
  refine ⟨after, by simpa using hs.trans hs', hq'.trans hq, ?_⟩
  rw [hl, climb_call hopen ho hb]
  exact bind_of_some (bind_of_some hrun _) _

theorem completes_binary {stratum : Stratum} {operator : Token} {sign : Sign}
    {left right : Expression} {m n : Nat} (ho : operator.kind = .sign sign)
    (hs : sign ∈ stratum.operators) (hd : Derives (.expression stratum.next right) n more)
    (hleft : Completes (.expression stratum left) m tokens)
    (hright : Completes (.expression stratum.next right) n more) :
    Completes (.expression stratum (.binary operator left operator.literal right))
      (max m (n + 1)) (tokens ++ operator :: more) := by
  intro room bound parser rest hle hfits hb ht he
  obtain ⟨hlem, hlen⟩ := Nat.max_le.mp hle
  have ht' : parser.tokens = tokens ++ operator :: (more ++ rest) := by simpa using ht
  -- The left operand is read in the level that is open, and only the right one opens another.
  obtain ⟨middle, hspan, hq, hl⟩ := hleft hlem hfits hb ht' (ends_operator ho hs)
  have hop := hspan.advance_tokens ht'
  have hrest : middle.advance.advance.tokens = more ++ rest := by
    rw [tokens_advance, hop]
    rfl
  obtain ⟨after, hspan', hq', hrun⟩ := yields_expression hd hright
    (Nat.le_of_succ_le_succ hlen) (.inl (Stratum.lt_next_of_mem hs)) (Stratum.lt_call_of_mem hs)
    hrest he
  refine ⟨after, hspan.trans (.step hop hspan'), hq'.trans hq, ?_⟩
  rw [hl, climb_binary hop ho hs hfits]
  exact bind_of_some (bind_of_some hrun _) _

theorem completes_tighter {stratum : Stratum} {tree : Expression}
    (h : Completes (.expression stratum.next tree) nesting tokens) :
    Completes (.expression stratum tree) nesting tokens :=
  fun hle hfits hb ht he => h hle (Stratum.fits_next hfits) hb ht (he.mono stratum.strength_le_next)

end Rules

/-! ## Derivations -/

/-- What tokens derive is what the parser reads from them, if there is room for its nesting. -/
theorem completes_of_derives {phrase : Phrase} {nesting : Nat} {tokens : List Token}
    (h : Derives phrase nesting tokens) (hr : Readable tokens) :
    Completes phrase nesting tokens := by
  induction h with
  | name hk => exact fun _ _ _ ht _ => (yields_name hk ht).climbs
  | integer hk => exact fun _ _ _ ht _ => (yields_integer hk hr ht).climbs
  | trueWord hk => exact fun _ _ _ ht _ => (yields_boolean hk (.inl rfl) ht).climbs
  | falseWord hk => exact fun _ _ _ ht _ => (yields_boolean hk (.inr rfl) ht).climbs
  | group ho hd hc ih =>
      simp only [readable_cons, readable_append, List.cons_append] at hr
      exact completes_group ho hc hd (ih hr.2.1)
  | conditional hw ho hd hc hb ih ih' =>
      simp only [readable_cons, readable_append, List.cons_append] at hr
      exact completes_conditional hw ho hd (ih hr.2.2.1) hc hb (ih' hr.2.2.2.2)
  | alternative hw ho hd hc hb he ha ih ih' ih'' =>
      simp only [readable_cons, readable_append, List.cons_append] at hr
      exact completes_alternative hw ho hd (ih hr.2.2.1.1) hc hb (ih' hr.2.2.1.2.2) he ha
        (ih'' hr.2.2.2.2)
  | function hw ho hn hc hb ih =>
      simp only [readable_cons, readable_append, List.cons_append] at hr
      exact completes_function hw ho hn hc hb (ih hr.2.2.2.2)
  | call hd ho ha hc ih ih' =>
      simp only [readable_cons, readable_append] at hr
      exact completes_call ho hc (ih hr.1.1) (ih' hr.1.2.2)
  | unary ho hd ih =>
      rw [readable_cons] at hr
      exact completes_unary ho hd (ih hr.2)
  | binary hd ho hs hd' ih ih' =>
      simp only [readable_cons, readable_append] at hr
      exact completes_binary ho hs hd' (ih hr.1) (ih' hr.2.2)
  | tighter _ ih => exact completes_tighter (ih hr)
  | noArguments => exact completes_noArguments
  | arguments hd hds ih ih' =>
      rw [readable_append] at hr
      exact completes_arguments hd hds (ih hr.1) (ih' hr.2)
  | noOtherArguments => exact fun _ hc hs ht => goesOn_last hc hs ht
  | otherArguments hc hd hds ih ih' =>
      simp only [readable_cons, readable_append, List.cons_append] at hr
      exact completes_otherArguments hc hd hds (ih hr.2.1) (ih' hr.2.2)
  | block ho _ hc ih =>
      simp only [readable_cons, readable_append, List.cons_append] at hr
      exact completes_block hc (ih hr.2.1)
  | binding hw hn ha hd ih =>
      simp only [readable_cons] at hr
      exact completes_binding hw hn ha hd (ih hr.2.2.2)
  | result hw hd ih =>
      rw [readable_cons] at hr
      exact completes_result hw hd (ih hr.2)
  | bare hd ih => exact completes_bare hd (ih hr)
  | closed _ hs ih =>
      rw [readable_append] at hr
      exact completes_closed hs (ih hr.1)
  | noStatements => exact completes_noStatements
  | statements hd hds apart ih ih' =>
      rw [readable_append] at hr
      exact completes_statements hd hds apart (ih hr.1) (ih' hr.2)

/-! ## Sources -/

/-- The integers of a source are digits throughout, so only their length and their value matter. -/
theorem integerValue?_of_valid {token : Token} (h : token.Valid) (hk : token.kind = .int)
    (hlen : token.literal.toList.length ≤ maxIntegerDigits)
    (hmax : decimalValue token.literal.toList ≤ maxInteger) :
    (integerValue? token.literal).isSome = true := by
  cases h with
  | sign mark => cases hk
  | word hne hl =>
      rcases Kind.ofWord_cases (String.ofList _) with h | ⟨word, h, -⟩ <;> rw [h] at hk <;> cases hk
  | @number run hne hd =>
      have hall : run.all isDigit = true := List.all_eq_true.mpr hd
      simp only [String.toList_ofList] at hlen hmax
      simp [integerValue?, hne, hall, hlen, hmax]

/-- The integers among the tokens of a source can be read if they are in range. -/
theorem readable_of_tokenize {source : String} {tokens : List Token}
    (hi : ∀ token ∈ tokens, token.kind = .int →
      token.literal.toList.length ≤ maxIntegerDigits ∧
        decimalValue token.literal.toList ≤ maxInteger)
    (ht : tokenize source = tokens ++ [Token.eof]) : Readable tokens := by
  intro token hm hk
  have hmem : token ∈ tokenize source := by simp [ht, hm]
  have hvalid := valid_of_mem_tokenize hmem (by simp [hk]) (by simp [hk])
  exact integerValue?_of_valid hvalid hk (hi token hm hk).1 (hi token hm hk).2

theorem beforeEnd_of_startsStatement (parser : Parser)
    (h : parser.currentToken.kind.startsStatement = true) : parser.beforeEnd = true := by
  simp only [beforeEnd, Bool.not_eq_true', Bool.eq_false_iff, ne_eq, currentIs_iff]
  intro hk
  rw [hk] at h
  exact absurd h (by decide)

theorem beforeEnd_of_nil {parser : Parser} (h : parser.tokens = []) : parser.beforeEnd = false := by
  have hcur : parser.currentToken = Token.eof := by rw [currentToken_eq, h]; rfl
  simp [beforeEnd, currentIs, hcur, Token.eof]

/-- Statements up to the end of the tokens are all kept. -/
theorem statementsOrGaps_of_derives {room nesting : Nat} {parser : Parser} {trees : List Statement}
    {tokens : List Token} (hd : Derives (.statements trees) nesting tokens) (hle : nesting ≤ room)
    (hr : Readable tokens) (ht : parser.tokens = tokens) :
    ∃ after, Quiet parser after ∧
      statementsOrGaps (nestedIn room) parser = (some (trees.map some), after) := by
  obtain ⟨after, -, hq, hm⟩ := @completes_of_derives _ _ _ hd hr room parser [] _
    (takes_statementOrGap (nestedIn room) upcoming_ne_nil_of_beforeEnd) hle (by simpa using ht)
    (by simp) beforeEnd_of_startsStatement fun _ => beforeEnd_of_nil
  exact ⟨after, hq, hm⟩

theorem parse_of_derives {source : String} {trees : List Statement} {nesting : Nat}
    {tokens : List Token} (hd : Derives (.statements trees) nesting tokens)
    (hle : nesting ≤ maxDepth) (hr : Readable tokens) (ht : tokenize source = tokens ++ [Token.eof]) :
    parse source = ⟨⟨trees⟩, []⟩ := by
  have hparser := tokens_of_tokenize ht
  obtain ⟨values, after, hrows, hrun⟩ := program_run (nestedIn maxDepth) (ofSource source)
  obtain ⟨last, hq, hm⟩ := statementsOrGaps_of_derives hd hle hr hparser
  cases hrows.symm.trans hm
  rw [parse_of_run hrun, show after.reports = #[] from hq]
  simp

/-- A source of one expression and nothing else. -/
theorem parse_of_expression {source : String} {stratum : Stratum} {tree : Expression}
    {nesting : Nat} {first : Token} {tokens : List Token}
    (hd : Derives (.expression stratum tree) nesting (first :: tokens)) (hle : nesting ≤ maxDepth)
    (hr : Readable (first :: tokens)) (ht : tokenize source = first :: tokens ++ [Token.eof]) :
    parse source = ⟨⟨[.expression first (some tree)]⟩, []⟩ := by
  have hbare := Derives.bare (hd.loosen stratum.equality_le)
  have hrow := Derives.statements hbare .noStatements (.inr (by simp))
  refine parse_of_derives hrow ?_ ?_ ?_
  · omega
  · simpa using hr
  · simpa using ht

end MonkeyFront.Parser

namespace MonkeyFront

open Grammar

/-- What the grammar derives is parsed as it was derived, if the integers are in range and the
expressions are not nested too deeply. -/
theorem parse_complete {source : String} {program : Program} {nesting : Nat} {tokens : List Token}
    (hd : Derives (.statements program.statements) nesting tokens) (hn : nesting ≤ 100)
    (hi : ∀ token ∈ tokens, token.kind = .int →
      token.literal.toList.length ≤ 4300 ∧ decimalValue token.literal.toList ≤ maxInteger)
    (ht : tokenize source = tokens ++ [Token.eof]) :
    (parse source).errors = [] ∧ (parse source).program = program := by
  have hr : Parser.Readable tokens := by
    intro token hm hk
    have hmem : token ∈ tokenize source := by simp [ht, hm]
    have hvalid := valid_of_mem_tokenize hmem (by simp [hk]) (by simp [hk])
    exact Parser.integerValue?_of_valid hvalid hk (hi token hm hk).1 (hi token hm hk).2
  rw [Parser.parse_of_derives hd hn hr ht]
  exact ⟨rfl, rfl⟩

/-- Redundant parentheses leave no node. -/
theorem parse_complete_group :
    (parse "let x = (a) - 5;").errors = [] ∧
    (parse "let x = (a) - 5;").program =
      ⟨[.binding ⟨.keyword .letWord, "let"⟩ ⟨⟨.ident, "x"⟩, "x"⟩
        (some (.binary ⟨.sign .minus, "-"⟩ (.identifier ⟨⟨.ident, "a"⟩, "a"⟩) "-"
          (.integer ⟨.int, "5"⟩ 5)))]⟩ := by
  have hleft : Derives (.expression .call (.identifier ⟨⟨.ident, "a"⟩, "a"⟩)) 2
      [⟨.sign .leftParen, "("⟩, ⟨.ident, "a"⟩, ⟨.sign .rightParen, ")"⟩] :=
    .group rfl (Derives.loosen (.name rfl) (by decide)) rfl
  have hright : Derives (.expression .call (.integer ⟨.int, "5"⟩ 5)) 1 [⟨.int, "5"⟩] :=
    .integer rfl
  have hminus : Token.kind ⟨.sign .minus, "-"⟩ = .sign .minus := rfl
  have hassign : Token.kind ⟨.sign .assign, "="⟩ = .sign .assign := rfl
  have hsemicolon : Token.kind ⟨.sign .semicolon, ";"⟩ = .sign .semicolon := rfl
  have hvalue : Derives (.expression .sum _) 2 _ :=
    .binary (hleft.loosen (by decide)) hminus (by decide) (hright.loosen (by decide))
  exact parse_complete
    (.statements (.closed (.binding rfl rfl hassign (hvalue.loosen (by decide))) hsemicolon)
      .noStatements (.inl rfl))
    (by decide) (by decide +kernel) (by decide +kernel)

end MonkeyFront
