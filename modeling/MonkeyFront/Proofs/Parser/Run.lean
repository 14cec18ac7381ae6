import MonkeyFront.Parser.Program

/-!
# Running rules

What rules come to on a parser, one equation for each way of making a rule, and the tokens that a
run covers. A parser is looked at through the tokens to come; where they stood in the source plays
no part in what a rule does.
-/

namespace MonkeyFront.Parser

open Rule

/-- The tokens to come, the one under examination first. -/
def tokens (parser : Parser) : List Token := parser.upcoming.map (·.token)

theorem currentToken_eq (parser : Parser) :
    parser.currentToken = parser.tokens.headD Token.eof := by
  unfold currentToken tokens
  cases parser.upcoming <;> rfl

theorem peekToken_eq (parser : Parser) : parser.peekToken = parser.tokens.tail.headD Token.eof := by
  unfold peekToken tokens
  match parser.upcoming with
  | [] | [_] | _ :: _ :: _ => rfl

@[simp] theorem tokens_advance (parser : Parser) : parser.advance.tokens = parser.tokens.tail := by
  simp [tokens, advance]

theorem currentToken_advance (parser : Parser) :
    parser.advance.currentToken = parser.peekToken := by
  rw [currentToken_eq, peekToken_eq, tokens_advance]

@[simp] theorem reports_advance (parser : Parser) : parser.advance.reports = parser.reports := rfl

theorem peekIs_iff {kind : Kind} {parser : Parser} :
    parser.peekIs kind = true ↔ parser.advance.currentToken.kind = kind := by
  rw [peekIs, currentToken_advance, beq_iff_eq]

theorem peekIs_eq_false_iff {kind : Kind} {parser : Parser} :
    parser.peekIs kind = false ↔ parser.advance.currentToken.kind ≠ kind := by
  rw [Bool.eq_false_iff, ne_eq, peekIs_iff]

theorem currentIs_iff {kind : Kind} {parser : Parser} :
    parser.currentIs kind = true ↔ parser.currentToken.kind = kind := by
  rw [currentIs, beq_iff_eq]

theorem currentToken_of_tokens {parser : Parser} {first : Token} {others : List Token}
    (h : parser.tokens = first :: others) : parser.currentToken = first := by
  rw [currentToken_eq, h]
  rfl

/-- What is no end token is really there. -/
theorem tokens_of_currentToken {parser : Parser} (h : parser.currentToken.kind ≠ .eof) :
    parser.tokens = parser.currentToken :: parser.advance.tokens := by
  rw [currentToken_eq, tokens_advance] at *
  cases ht : parser.tokens with
  | nil => simp [ht, Token.eof] at h
  | cons first others => simp

theorem currentPrecedence_advance (parser : Parser) :
    parser.advance.currentPrecedence = parser.peekPrecedence := by
  rw [currentPrecedence, peekPrecedence, currentToken_advance]

/-- The parser on the next token if that is of a kind, and where it is otherwise. -/
def pastOptional (kind : Kind) (parser : Parser) : Parser :=
  if parser.peekIs kind then parser.advance else parser

@[simp] theorem reports_pastOptional (kind : Kind) (parser : Parser) :
    (parser.pastOptional kind).reports = parser.reports := by
  unfold pastOptional
  split <;> rfl

namespace Rule

variable {α β : Type}

/-! ## Equations -/

theorem bind_eq_some {rule : Rule α} {more : α → Rule β} {parser after : Parser} {value : β} :
    (rule >>= more) parser = (some value, after) ↔
      ∃ first middle, rule parser = (some first, middle) ∧
        more first middle = (some value, after) := by
  change Rule.bind rule more parser = _ ↔ _
  unfold Rule.bind
  constructor
  · intro h
    split at h
    next first middle he => exact ⟨first, middle, he, h⟩
    next => cases h
  · rintro ⟨first, middle, he, h⟩
    rw [he]
    exact h

theorem bind_of_some {rule : Rule α} {parser after : Parser} {value : α}
    (h : rule parser = (some value, after)) (more : α → Rule β) :
    (rule >>= more) parser = more value after := by
  change Rule.bind rule more parser = _
  rw [Rule.bind, h]

theorem bind_of_none {rule : Rule α} {parser after : Parser} (h : rule parser = (none, after))
    (more : α → Rule β) : (rule >>= more) parser = (none, after) := by
  change Rule.bind rule more parser = _
  rw [Rule.bind, h]

/-- Rules that run alike where they start run alike with what comes next. -/
theorem bind_congr_run {rule other : Rule α} {parser middle : Parser}
    (h : rule parser = other middle) (more : α → Rule β) :
    (rule >>= more) parser = (other >>= more) middle := by
  change Rule.bind rule more parser = Rule.bind other more middle
  rw [Rule.bind, Rule.bind, h]

@[simp] theorem pure_run (value : α) (parser : Parser) :
    (pure value : Rule α) parser = (some value, parser) := rfl

theorem bind_pure_snd (rule : Rule α) (view : α → β) (parser : Parser) :
    ((rule >>= fun value => pure (view value)) parser).2 = (rule parser).2 := by
  cases h : rule parser with
  | mk outcome after =>
      cases outcome with
      | none => rw [bind_of_none h]
      | some value => rw [bind_of_some h, pure_run]

@[simp] theorem see_bind (view : Parser → α) (more : α → Rule β) (parser : Parser) :
    (see view >>= more) parser = more (view parser) parser := rfl

@[simp] theorem current_bind (more : Token → Rule β) (parser : Parser) :
    (current >>= more) parser = more parser.currentToken parser := rfl

@[simp] theorem skip_bind (more : Unit → Rule β) (parser : Parser) :
    (skip >>= more) parser = more () parser.advance := rfl

@[simp] theorem skipOptional_bind (kind : Kind) (more : Unit → Rule β) (parser : Parser) :
    (skipOptional kind >>= more) parser = more () (parser.pastOptional kind) := rfl

@[simp] theorem attempt_bind (rule : Rule α) (more : Option α → Rule β) (parser : Parser) :
    (attempt rule >>= more) parser = more (rule parser).1 (rule parser).2 := rfl

@[simp] theorem refuse_run (diagnostic : Diagnostic) (parser : Parser) :
    (refuse diagnostic : Rule α) parser = (none, parser.report diagnostic) := rfl

@[simp] theorem identifier_bind (more : Identifier → Rule β) (parser : Parser) :
    (identifier >>= more) parser =
      more ⟨parser.currentToken, parser.currentToken.literal⟩ parser := rfl

theorem expect_eq_some {kind : Kind} {parser after : Parser} {value : Unit} :
    expect kind parser = (some value, after) ↔
      parser.advance.currentToken.kind = kind ∧ after = parser.advance := by
  rw [← peekIs_iff]
  unfold expect
  cases parser.peekIs kind <;> simp [eq_comm]

theorem expect_of_kind {kind : Kind} {parser : Parser}
    (h : parser.advance.currentToken.kind = kind) :
    expect kind parser = (some (), parser.advance) :=
  expect_eq_some.mpr ⟨h, rfl⟩

theorem onGivingUp_eq_some {change : Parser → Parser} {rule : Rule α} {parser after : Parser}
    {value : α} :
    onGivingUp change rule parser = (some value, after) ↔ rule parser = (some value, after) := by
  unfold onGivingUp
  split
  next he => rw [he]
  next he => rw [he]; simp

/-! ## Loops -/

section Loops

variable {goOn : Parser → Bool} {parser middle after : Parser}

theorem many_stop {item : Rule α} {takes : Takes goOn item} (h : goOn parser = false) :
    many goOn item takes parser = (some [], parser) := by
  rw [many, dif_neg (by simp [h])]

theorem many_run {item : Rule α} {takes : Takes goOn item} (hg : goOn parser = true) :
    many goOn item takes parser =
      (do
        let value ← item
        let values ← many goOn item takes
        return value :: values : Rule (List α)) parser := by
  rw [many, dif_pos hg]
  split
  next hi => rw [bind_of_none hi]
  next value middle hi =>
    rw [bind_of_some hi]
    split
    next hm => rw [bind_of_none hm]
    next hm => rw [bind_of_some hm, pure_run]

theorem many_more {item : Rule α} {takes : Takes goOn item} {value : α} {values : List α}
    (hg : goOn parser = true) (hi : item parser = (some value, middle))
    (hm : many goOn item takes middle = (some values, after)) :
    many goOn item takes parser = (some (value :: values), after) := by
  rw [many_run hg, bind_of_some hi, bind_of_some hm, pure_run]

theorem many_snd {item : Rule α} {takes : Takes goOn item} {value : α}
    (hg : goOn parser = true) (hi : item parser = (some value, middle)) :
    (many goOn item takes parser).2 = (many goOn item takes middle).2 := by
  rw [many_run hg, bind_of_some hi]
  exact bind_pure_snd _ _ _

/-- A loop whose item never gives up never does. -/
theorem many_ne_none {item : Rule α} {takes : Takes goOn item}
    (h : ∀ parser, (item parser).1 ≠ none) (parser : Parser) :
    (many goOn item takes parser).1 ≠ none := by
  fun_induction many goOn item takes parser with
  | case1 parser hg after hi => exact absurd (by rw [hi]) (h parser)
  | case2 parser hg value after hi last hl ih => exact absurd (by rw [hl]) ih
  | case3 | case4 => simp

/-- A loop that was not given up goes on until its condition fails. -/
theorem many_stopped {item : Rule α} {takes : Takes goOn item} {values : List α}
    (h : many goOn item takes parser = (some values, after)) : goOn after = false := by
  fun_induction many goOn item takes parser generalizing values with
  | case1 | case2 => cases h
  | case3 parser hg value middle hi others last hl ih =>
      cases h
      exact ih hl
  | case4 parser hg =>
      cases h
      simpa using hg

variable {step : α → Rule α} {takes : ∀ value, Takes goOn (step value)} {value : α}

theorem fold_stop (h : goOn parser = false) :
    fold goOn step takes value parser = (some value, parser) := by
  rw [fold, dif_neg (by simp [h])]

theorem fold_run (hg : goOn parser = true) :
    fold goOn step takes value parser = (step value >>= fold goOn step takes) parser := by
  rw [fold, dif_pos hg]
  split
  next hs => exact (bind_of_none hs _).symm
  next hs => exact (bind_of_some hs _).symm

end Loops

end Rule

/-! ## Integers -/

/-- The integer literals among some tokens can be read. -/
def Readable (tokens : List Token) : Prop :=
  ∀ token ∈ tokens, token.kind = .int → (integerValue? token.literal).isSome = true

@[simp] theorem readable_nil : Readable [] := by simp [Readable]

@[simp] theorem readable_append {tokens more : List Token} :
    Readable (tokens ++ more) ↔ Readable tokens ∧ Readable more :=
  List.forall_mem_append

@[simp] theorem readable_cons {token : Token} {tokens : List Token} :
    Readable (token :: tokens) ↔
      (token.kind = .int → (integerValue? token.literal).isSome = true) ∧ Readable tokens :=
  List.forall_mem_cons

/-- A literal that can be read is made of digits, and their value is in range. -/
theorem integerValue?_eq_some {literal : String} {value : Nat}
    (h : integerValue? literal = some value) :
    literal ≠ "" ∧ (∀ c ∈ literal.toList, isDigit c = true) ∧
      value = decimalValue literal.toList ∧ value ≤ maxInteger := by
  simp only [integerValue?] at h
  split at h
  next hall =>
    obtain ⟨hne, hdigits, -, hle⟩ := hall
    cases h
    exact ⟨by simpa using hne, List.all_eq_true.mp hdigits, rfl, hle⟩
  next => cases h

/-! ## Choices by the first token -/

section Choices

variable {nested : Nested} {parser : Parser}

theorem statement_of_let (h : parser.currentToken.kind = .keyword .letWord) :
    statement nested parser = onGivingUp countDropped (binding nested) parser := by
  simp only [statement, onGivingUp, current_bind, h]

theorem statement_of_return (h : parser.currentToken.kind = .keyword .returnWord) :
    statement nested parser = onGivingUp countDropped (result nested) parser := by
  simp only [statement, onGivingUp, current_bind, h]

theorem statement_of_other (hl : parser.currentToken.kind ≠ .keyword .letWord)
    (hr : parser.currentToken.kind ≠ .keyword .returnWord) :
    statement nested parser = onGivingUp countDropped (expressionStatement nested) parser := by
  simp only [statement, onGivingUp, current_bind]

/-- What an operand comes to, by the kind of the token that it starts with. -/
theorem operand_run : operand nested parser =
    match parser.currentToken.kind with
    | .ident => (some (.identifier ⟨parser.currentToken, parser.currentToken.literal⟩), parser)
    | .int => integer parser
    | .keyword .trueWord => boolean parser
    | .keyword .falseWord => boolean parser
    | .sign .bang => unary nested parser
    | .sign .minus => unary nested parser
    | .sign .leftParen => group nested parser
    | .keyword .ifWord => conditional nested parser
    | .keyword .fnWord => function nested parser
    | _ => (none, parser.report (.ofStray parser.currentToken)) := by
  rw [operand, current_bind]
  split <;> first | rfl | simp_all

end Choices

/-! ## Operators -/

section Operators

variable {nested : Nested} {parser after : Parser} {bound : Precedence} {left : Expression}

theorem bindsTighter_iff : parser.bindsTighter bound = true ↔ bound < parser.peekPrecedence :=
  decide_eq_true_iff

theorem bindsTighter_eq_false_iff :
    parser.bindsTighter bound = false ↔ parser.peekPrecedence.level ≤ bound.level := by
  rw [Bool.eq_false_iff, ne_eq, bindsTighter_iff, Precedence.lt_iff, Nat.not_lt]

theorem lt_advance_of_bindsTighter (h : parser.bindsTighter bound = true) :
    bound < parser.advance.currentPrecedence := by
  rw [currentPrecedence_advance]
  exact bindsTighter_iff.mp h

theorem climb_stop (h : parser.peekPrecedence.level ≤ bound.level) :
    climb nested bound left parser = (some left, parser) :=
  fold_stop (bindsTighter_eq_false_iff.mpr h)

/-- The loop takes one operator and goes on. -/
theorem climb_more (h : bound < parser.peekPrecedence) :
    climb nested bound left parser = (continued nested left >>= climb nested bound) parser :=
  fold_run (bindsTighter_iff.mpr h)

theorem continued_of_leftParen (h : parser.advance.currentToken.kind = .sign .leftParen) :
    continued nested left parser = call nested left parser.advance := by
  rw [continued, skip_bind, see_bind, if_pos (currentIs_iff.mpr h)]

theorem continued_of_other (h : parser.advance.currentToken.kind ≠ .sign .leftParen) :
    continued nested left parser = binary nested left parser.advance := by
  rw [continued, skip_bind, see_bind, if_neg (mt currentIs_iff.mp h)]

/-- Expressions that go on a list, each after a comma. -/
def otherArguments (nested : Nested) : Rule (List Expression) :=
  many (peekIs (.sign .comma)) (nextArgument nested) (takes_nextArgument nested)

theorem arguments_run (h : parser.peekIs (.sign .rightParen) = false) :
    arguments nested parser =
      (do
        let first ← nested.parse .lowest
        let others ← otherArguments nested
        expect (.sign .rightParen)
        return first :: others : Rule (List Expression)) parser.advance := by
  rw [arguments, see_bind, if_neg (by simp [h]), skip_bind]
  rfl

/-- What is yielded on a level was yielded inside it. -/
theorem nestedIn_eq_some {room : Nat} {tree : Expression} :
    (nestedIn (room + 1)).parse bound parser = (some tree, after) ↔
      ∃ last, level (nestedIn room) bound parser.enter = (some tree, last) ∧ last.leave = after := by
  change inLevel (level (nestedIn room) bound) parser = _ ↔ _
  unfold inLevel
  cases level (nestedIn room) bound parser.enter with
  | mk outcome last =>
      simp only [Prod.mk.injEq]
      constructor
      · rintro ⟨rfl, rfl⟩
        exact ⟨last, ⟨rfl, rfl⟩, rfl⟩
      · rintro ⟨_, ⟨rfl, rfl⟩, rfl⟩
        exact ⟨rfl, rfl⟩

end Operators

/-! ## Sources -/

/-- The statements up to the end of the source, and a gap for each that was given up. -/
def statementsOrGaps (nested : Nested) : Rule (List (Option Statement)) :=
  many beforeEnd (statementOrGap nested) (takes_statementOrGap nested upcoming_ne_nil_of_beforeEnd)

/-- A program is never given up, only statements are. -/
theorem program_run (nested : Nested) (parser : Parser) :
    ∃ values after, statementsOrGaps nested parser = (some values, after) ∧
      program nested parser = (some ⟨values.filterMap id⟩, after) := by
  have hne : (statementsOrGaps nested parser).1 ≠ none :=
    many_ne_none (fun _ => by simp [statementOrGap, attempt_bind]) parser
  cases hrun : statementsOrGaps nested parser with
  | mk outcome after =>
      cases outcome with
      | none => exact absurd (by rw [hrun]) hne
      | some values => exact ⟨values, after, rfl, bind_of_some hrun _⟩

theorem tokens_ofSource (source : String) :
    tokenize source = (ofSource source).tokens ++ [Token.eof] := rfl

theorem tokens_of_tokenize {source : String} {tokens : List Token}
    (h : tokenize source = tokens ++ [Token.eof]) : (ofSource source).tokens = tokens :=
  List.append_cancel_right ((tokens_ofSource source).symm.trans h)

/-- All levels may be opened in a source. -/
theorem parse_of_run {source : String} {outcome : Option Program} {after : Parser}
    (h : program (nestedIn maxDepth) (ofSource source) = (outcome, after)) :
    parse source = ⟨outcome.getD ⟨[]⟩, after.reports.toList⟩ := by
  have hrun : withRoom program (ofLexemes (lexemesOf source)) = (outcome, after) := h
  rw [parse, Parsed.ofLexemes, hrun]
  cases outcome <;> rfl

/-! ## Covered tokens -/

/-- The parser stood before the tokens `read`, and afterwards it stands on the last of them. -/
def Spans (parser : Parser) (read : List Token) (after : Parser) : Prop :=
  ∃ front last rest, read = front ++ [last] ∧ parser.tokens = front ++ last :: rest ∧
    after.tokens = last :: rest

namespace Spans

variable {parser middle after : Parser} {read more rest : List Token}

theorem single {token : Token} (h : parser.tokens = token :: rest) : parser.Spans [token] parser :=
  ⟨[], token, rest, rfl, h, h⟩

theorem current (h : parser.currentToken.kind ≠ .eof) :
    parser.Spans [parser.currentToken] parser :=
  single (tokens_of_currentToken h)

theorem trans (h : parser.Spans read middle) (hm : middle.advance.Spans more after) :
    parser.Spans (read ++ more) after := by
  obtain ⟨front, last, others, rfl, hp, hmid⟩ := h
  obtain ⟨front', last', others', rfl, hp', ha⟩ := hm
  rw [tokens_advance, hmid, List.tail_cons] at hp'
  exact ⟨front ++ last :: front', last', others', by simp, by simp [hp, hp'], ha⟩

/-- A run of one token and then of more. -/
theorem cons (h : parser.currentToken.kind ≠ .eof) (hm : parser.advance.Spans more after) :
    parser.Spans (parser.currentToken :: more) after :=
  (current h).trans hm

/-- A run that goes on to one more token. -/
theorem concat (h : parser.Spans read middle) (hk : middle.advance.currentToken.kind ≠ .eof) :
    parser.Spans (read ++ [middle.advance.currentToken]) middle.advance :=
  h.trans (current hk)

theorem tokens_eq (h : parser.Spans read after) :
    parser.tokens = read ++ after.advance.tokens := by
  obtain ⟨front, last, others, rfl, hp, ha⟩ := h
  simp [hp, ha]

theorem advance_tokens (h : parser.Spans read after) (hp : parser.tokens = read ++ rest) :
    after.advance.tokens = rest :=
  List.append_cancel_left (h.tokens_eq.symm.trans hp)

theorem step {token : Token} (h : parser.tokens = token :: rest)
    (hm : parser.advance.Spans more after) : parser.Spans (token :: more) after :=
  (single h).trans hm

/-- A run that goes on to the token after it. -/
theorem goOn {token : Token} (h : parser.Spans read after)
    (ht : parser.tokens = read ++ token :: rest) :
    parser.Spans (read ++ [token]) after.advance :=
  h.trans (single (h.advance_tokens ht))

theorem advance_currentToken {token : Token} (h : parser.Spans read after)
    (ht : parser.tokens = read ++ token :: rest) : after.advance.currentToken = token :=
  currentToken_of_tokens (h.advance_tokens ht)

theorem leave (h : parser.enter.Spans read after) : parser.Spans read after.leave := h

end Spans

end MonkeyFront.Parser
