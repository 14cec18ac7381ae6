import Mathlib.Data.List.Induction
import Mathlib.Data.Nat.Digits.Defs
import MonkeyFront.Proofs.Parser.Completeness
import MonkeyFront.Proofs.Parser.Soundness
import MonkeyFront.Proofs.Scanner.Spelling
import MonkeyFront.Tree.Rendering

/-!
# Integer literals

An integer is read if it has no more digits than are allowed, leading zeros included, and fits into
a signed word of 64 bits. A sign before it is an operator and does not belong to it, so the least
signed word has no literal. What is refused is reported once, at whatever place it stands.
-/

namespace MonkeyFront

/-- The value of decimal digits is that of their row in base ten. -/
theorem decimalValue_eq_ofDigits (digits : List Char) :
    decimalValue digits =
      Nat.ofDigits 10 (digits.reverse.map fun c => c.toNat - '0'.toNat) := by
  induction digits using List.reverseRecOn with
  | nil => rfl
  | append_singleton digits c ih =>
      have hstep : decimalValue (digits ++ [c]) =
          10 * decimalValue digits + (c.toNat - '0'.toNat) := by
        simp [decimalValue, List.foldl_append]
      rw [hstep, ih]
      simp [Nat.ofDigits_cons, Nat.add_comm]

/-- A row of digits, at least one. -/
structure Numeral (digits : String) : Prop where
  nonempty : digits ≠ ""
  digit : ∀ c ∈ digits.toList, isDigit c = true

/-- Whether an integer literal is neither too long nor too large. -/
def FitsInteger (digits : String) : Prop :=
  digits.toList.length ≤ 4300 ∧ decimalValue digits.toList ≤ 2 ^ 63 - 1

instance (digits : String) : Decidable (FitsInteger digits) :=
  inferInstanceAs (Decidable (_ ∧ _))

theorem maxInteger_eq : maxInteger = 2 ^ 63 - 1 := by decide

namespace Parser

open Rule Grammar

section Values

variable {digits : String} (hd : Numeral digits)
include hd

theorem integerValue?_of_fits (h : FitsInteger digits) :
    integerValue? digits = some (decimalValue digits.toList) := by
  have hall : digits.toList.all isDigit = true := List.all_eq_true.mpr hd.digit
  have hne : digits.toList ≠ [] := by simpa using hd.nonempty
  rw [integerValue?, if_pos]
  exact ⟨hne, hall, h.1, maxInteger_eq ▸ h.2⟩

omit hd in
theorem integerValue?_of_not_fits (h : ¬ FitsInteger digits) : integerValue? digits = none := by
  rw [integerValue?, if_neg]
  rintro ⟨-, -, hlen, hle⟩
  exact h ⟨hlen, maxInteger_eq ▸ hle⟩

theorem valid_numeral : Token.Valid ⟨.int, digits⟩ := by
  have hvalid : Token.Valid ⟨.int, String.ofList digits.toList⟩ :=
    .number (by simpa using hd.nonempty) hd.digit
  rwa [String.ofList_toList] at hvalid

theorem tokenize_numeral : tokenize digits = [⟨.int, digits⟩, .eof] := by
  have hmunch : munch (digits.toList ++ []) = ⟨.int, digits⟩ :: munch [] :=
    munch_parted (valid_numeral hd) (by simp) parted_nil
  have hend : munch [] = [Token.eof] := munch_of_none rfl
  rwa [List.append_nil, hend, munch_toList] at hmunch

theorem tokenize_minus_numeral :
    tokenize ("-" ++ digits) = [.ofSign .minus, ⟨.int, digits⟩, .eof] := by
  have htext : ("-" ++ digits).toList = '-' :: digits.toList := by simp
  rw [← munch_toList, htext, munch_lone .minus rfl (by decide) (by decide), munch_toList,
    tokenize_numeral hd]

end Values

/-! ## Refused literals -/

/-- An integer literal was refused here: nothing is yielded, one message more is recorded, and the
parser has stayed on its token. -/
structure RefusesInteger {α : Type} (digits : String) (parser : Parser)
    (outcome : Option α × Parser) : Prop where
  none : outcome.1 = none
  errors : outcome.2.errors =
    parser.errors ++ ["could not parse " ++ Text.quoted digits ++ " as integer"]
  tokens : outcome.2.tokens = parser.tokens

section Rules

variable {digits : String} {parser : Parser} {nested : Nested} {room : Nat}
  {strength : Precedence}

theorem errors_report (diagnostic : Diagnostic) :
    (parser.report diagnostic).errors = parser.errors ++ [diagnostic.message] := by
  simp [errors, report]

theorem operand_of_fits (hd : Numeral digits) (h : FitsInteger digits)
    (ht : parser.currentToken = ⟨.int, digits⟩) : operand nested parser =
      (some (.integer ⟨.int, digits⟩ (decimalValue digits.toList)), parser) := by
  rw [operand_run, ht]
  simp only [integer, current_bind, ht, integerValue?_of_fits hd h, pure_run]

theorem operand_of_not_fits (h : ¬ FitsInteger digits)
    (ht : parser.currentToken = ⟨.int, digits⟩) :
    RefusesInteger digits parser (operand nested parser) := by
  have hrun : operand nested parser = (none, parser.report (.badInteger digits)) := by
    rw [operand_run, ht]
    simp only [integer, current_bind, ht, integerValue?_of_not_fits h, refuse_run]
  rw [hrun]
  exact ⟨rfl, errors_report _, rfl⟩

theorem RefusesInteger.eq_none {α : Type} {outcome : Option α × Parser}
    (h : RefusesInteger digits parser outcome) : outcome = (.none, outcome.2) :=
  Prod.ext h.none rfl

theorem RefusesInteger.bind {α β : Type} {rule : Rule α} {start : Parser}
    (h : RefusesInteger digits start (rule parser)) (more : α → Rule β) :
    RefusesInteger digits start ((rule >>= more) parser) := by
  rw [bind_of_none h.eq_none]
  exact ⟨rfl, h.errors, h.tokens⟩

theorem RefusesInteger.of_enter {α : Type} {outcome : Option α × Parser}
    (h : RefusesInteger digits parser.enter outcome) : RefusesInteger digits parser outcome :=
  ⟨h.none, h.errors, h.tokens⟩

/-- A level is refused with the operand that it starts with. -/
theorem RefusesInteger.level {start : Parser}
    (h : RefusesInteger digits start (operand (nestedIn room) parser.enter)) :
    RefusesInteger digits start ((nestedIn (room + 1)).parse strength parser) := by
  have hlevel := h.bind (climb (nestedIn room) strength)
  exact ⟨hlevel.none, hlevel.errors, hlevel.tokens⟩

/-- Around an operand the level goes on with the operators after it. -/
theorem level_of_operand {tree : Expression}
    (h : operand (nestedIn room) parser.enter = (some tree, parser.enter)) :
    (nestedIn (room + 1)).parse strength parser =
      inLevel (climb (nestedIn room) strength tree) parser := by
  have hlevel : level (nestedIn room) strength parser.enter = _ := bind_of_some h _
  simp only [nestedIn, inLevel, hlevel]

/-- An operator takes the operand after it, in a level of its own. -/
theorem operand_of_operator {mark : Sign} (hm : mark = .bang ∨ mark = .minus)
    (hk : parser.currentToken = .ofSign mark) :
    operand nested parser = (nested.parse .unary >>= fun inside =>
      pure (.unary (.ofSign mark) mark.spelling inside)) parser.advance := by
  rw [operand_run, hk]
  rcases hm with rfl | rfl <;> simp only [unary, current_bind, skip_bind, hk] <;> rfl

theorem operator_of_fits {mark : Sign} (hm : mark = .bang ∨ mark = .minus) (hd : Numeral digits)
    (h : FitsInteger digits) (hk : parser.currentToken = .ofSign mark)
    (hp : parser.peekToken = ⟨.int, digits⟩) :
    operand (nestedIn (room + 1)) parser =
      (inLevel (climb (nestedIn room) .unary
          (.integer ⟨.int, digits⟩ (decimalValue digits.toList))) >>= fun inside =>
        pure (.unary (.ofSign mark) mark.spelling inside)) parser.advance := by
  have hcur : parser.advance.enter.currentToken = ⟨.int, digits⟩ :=
    (currentToken_advance parser).trans hp
  rw [operand_of_operator hm hk]
  exact bind_congr_run (level_of_operand (operand_of_fits hd h hcur)) _

theorem operator_of_not_fits {mark : Sign} (hm : mark = .bang ∨ mark = .minus)
    (h : ¬ FitsInteger digits) (hk : parser.currentToken = .ofSign mark)
    (hp : parser.peekToken = ⟨.int, digits⟩) :
    RefusesInteger digits parser.advance (operand (nestedIn (room + 1)) parser) := by
  have hcur : parser.advance.enter.currentToken = ⟨.int, digits⟩ :=
    (currentToken_advance parser).trans hp
  rw [operand_of_operator hm hk]
  exact (operand_of_not_fits h hcur).of_enter.level.bind _

end Rules

/-! ## Sources of one literal -/

/-- A source of one expression that is refused on its last token. -/
theorem parse_of_refused {source digits : String} {parser : Parser}
    (hk : (ofSource source).currentToken.kind.startsExpression = true)
    (h : RefusesInteger digits parser ((nestedIn maxDepth).parse .lowest (ofSource source)))
    (he : parser.errors = []) (ht : parser.tokens.tail = []) :
    (parse source).program.statements = [] ∧
      (parse source).errors = ["could not parse " ++ Text.quoted digits ++ " as integer"] := by
  have hgap : statementOrGap (nestedIn maxDepth) (ofSource source) =
      (some none, ((nestedIn maxDepth).parse .lowest (ofSource source)).2.countDropped.advance) := by
    have hl : (ofSource source).currentToken.kind ≠ .keyword .letWord := by
      intro hl
      rw [hl] at hk
      cases hk
    have hr : (ofSource source).currentToken.kind ≠ .keyword .returnWord := by
      intro hr
      rw [hr] at hk
      cases hk
    have hstatement : expressionStatement (nestedIn maxDepth) (ofSource source) = _ :=
      bind_of_none h.eq_none _
    rw [statementOrGap, attempt_bind, statement_of_other hl hr, onGivingUp, hstatement]
    rfl
  have hstarts : (ofSource source).currentToken.kind.startsStatement = true := by
    simp [Kind.startsStatement, hk]
  have hend : ((nestedIn maxDepth).parse .lowest
      (ofSource source)).2.countDropped.advance.tokens = [] := by
    rw [tokens_advance]
    exact (congrArg List.tail h.tokens).trans ht
  have hrows : statementsOrGaps (nestedIn maxDepth) (ofSource source) = (some [none], _) :=
    many_more (beforeEnd_of_startsStatement _ hstarts) hgap (many_stop (beforeEnd_of_nil hend))
  have hrun : program (nestedIn maxDepth) (ofSource source) = (some ⟨[]⟩, _) := bind_of_some hrows _
  have herrors := h.errors
  rw [he, List.nil_append] at herrors
  rw [parse_of_run hrun]
  exact ⟨rfl, herrors⟩

section Sources

variable {digits : String} (hd : Numeral digits)
include hd

theorem parse_numeral_of_fits (h : FitsInteger digits) :
    parse digits = ⟨⟨[.expression ⟨.int, digits⟩
      (some (.integer ⟨.int, digits⟩ (decimalValue digits.toList)))]⟩, []⟩ := by
  have hderives : Derives (.expression .call
      (.integer ⟨.int, digits⟩ (decimalValue digits.toList))) 1 [⟨.int, digits⟩] := .integer rfl
  refine parse_of_expression hderives (by decide) ?_ (tokenize_numeral hd)
  simp [integerValue?_of_fits hd h]

theorem parse_minus_numeral_of_fits (h : FitsInteger digits) :
    parse ("-" ++ digits) = ⟨⟨[.expression (.ofSign .minus) (some (.unary (.ofSign .minus) "-"
      (.integer ⟨.int, digits⟩ (decimalValue digits.toList))))]⟩, []⟩ := by
  have hoperand : Derives (.expression .unary
      (.integer ⟨.int, digits⟩ (decimalValue digits.toList))) 1 [⟨.int, digits⟩] :=
    .tighter (.integer rfl)
  have hminus : (Token.ofSign .minus).kind = .sign .bang ∨
      (Token.ofSign .minus).kind = .sign .minus := .inr rfl
  refine parse_of_expression (.unary hminus hoperand) (by decide) ?_ (tokenize_minus_numeral hd)
  simp [integerValue?_of_fits hd h]

theorem parse_numeral_of_not_fits (h : ¬ FitsInteger digits) :
    (parse digits).program.statements = [] ∧
      (parse digits).errors = ["could not parse " ++ Text.quoted digits ++ " as integer"] := by
  have htokens : (ofSource digits).tokens = [⟨.int, digits⟩] :=
    tokens_of_tokenize (tokenize_numeral hd)
  have hcur : (ofSource digits).enter.currentToken = ⟨.int, digits⟩ :=
    currentToken_of_tokens htokens
  refine parse_of_refused ?_ (operand_of_not_fits h hcur).level rfl ?_
  · rw [currentToken_of_tokens htokens]
    rfl
  · exact congrArg List.tail htokens

theorem parse_minus_numeral_of_not_fits (h : ¬ FitsInteger digits) :
    (parse ("-" ++ digits)).program.statements = [] ∧
      (parse ("-" ++ digits)).errors =
        ["could not parse " ++ Text.quoted digits ++ " as integer"] := by
  have htokens : (ofSource ("-" ++ digits)).tokens = [.ofSign .minus, ⟨.int, digits⟩] :=
    tokens_of_tokenize (tokenize_minus_numeral hd)
  have hcur : (ofSource ("-" ++ digits)).enter.currentToken = .ofSign .minus :=
    currentToken_of_tokens htokens
  have henter : (ofSource ("-" ++ digits)).enter.tokens = _ := htokens
  have hpeek : (ofSource ("-" ++ digits)).enter.peekToken = ⟨.int, digits⟩ := by
    rw [peekToken_eq, henter]
    rfl
  refine parse_of_refused ?_ (operator_of_not_fits (.inr rfl) h hcur hpeek).level rfl ?_
  · rw [currentToken_of_tokens htokens]
    rfl
  · rw [tokens_advance, henter]
    rfl

end Sources

/-- A source that follows the grammar is accepted exactly if its integers fit, at whatever places
they stand. -/
theorem accepted_iff_fits {source : String} {trees : List Statement} {nesting : Nat}
    {tokens : List Token} (hd : Derives (.statements trees) nesting tokens)
    (hle : nesting ≤ maxDepth) (ht : tokenize source = tokens ++ [Token.eof]) :
    (parse source).errors = [] ↔
      ∀ token ∈ tokens, token.kind = .int → FitsInteger token.literal := by
  constructor
  · intro h token hm hk
    obtain ⟨_, read, -, -, hr, hread⟩ := reads_source h
    obtain rfl : read = tokens := List.append_cancel_right (hread.symm.trans ht)
    by_contra hf
    have hsome := hr token hm hk
    simp [integerValue?_of_not_fits hf] at hsome
  · intro h
    have hr : Readable tokens := by
      refine readable_of_tokenize (fun token hm hk => ?_) ht
      exact ⟨(h token hm hk).1, maxInteger_eq ▸ (h token hm hk).2⟩
    rw [parse_of_derives hd hle hr ht]
    rfl

/-- Wherever an operand is parsed, and whatever comes after it, a row of digits is an integer with
the value of the row in base ten and the row as its rendering, if there are not too many of them and
the value is not too large. Otherwise nothing is yielded and one message is recorded. The same holds
after an operator, so the sign of an integer does not count. -/
theorem integer_literals {digits : String} (hd : Numeral digits) :
    let token : Token := ⟨.int, digits⟩
    let tree := Expression.integer token (decimalValue digits.toList)
    let message := "could not parse " ++ Text.quoted digits ++ " as integer"
    decimalValue digits.toList =
      Nat.ofDigits 10 (digits.toList.reverse.map fun c => c.toNat - '0'.toNat) ∧
    tree.render = digits ∧ tokenize digits = [token, .eof] ∧
    (FitsInteger digits →
      (∀ (nested : Nested) (parser : Parser), parser.currentToken = token →
        operand nested parser = (some tree, parser)) ∧
      (∀ (room : Nat) (mark : Sign) (parser : Parser), mark = .bang ∨ mark = .minus →
        parser.currentToken = .ofSign mark → parser.peekToken = token →
        operand (nestedIn (room + 1)) parser =
          (inLevel (climb (nestedIn room) .unary tree) >>= fun inside =>
            pure (.unary (.ofSign mark) mark.spelling inside)) parser.advance) ∧
      parse digits = ⟨⟨[.expression token (some tree)]⟩, []⟩ ∧
      parse ("-" ++ digits) =
        ⟨⟨[.expression (.ofSign .minus) (some (.unary (.ofSign .minus) "-" tree))]⟩, []⟩) ∧
    (¬ FitsInteger digits →
      (∀ (nested : Nested) (parser : Parser), parser.currentToken = token →
        RefusesInteger digits parser (operand nested parser)) ∧
      (∀ (room : Nat) (mark : Sign) (parser : Parser), mark = .bang ∨ mark = .minus →
        parser.currentToken = .ofSign mark → parser.peekToken = token →
        RefusesInteger digits parser.advance (operand (nestedIn (room + 1)) parser)) ∧
      ((parse digits).program.statements = [] ∧ (parse digits).errors = [message]) ∧
      (parse ("-" ++ digits)).program.statements = [] ∧
        (parse ("-" ++ digits)).errors = [message]) := by
  intro token tree message
  refine ⟨decimalValue_eq_ofDigits _, by simp [tree, token, Expression.render],
    tokenize_numeral hd, fun h => ⟨?_, ?_, ?_, ?_⟩, fun h => ⟨?_, ?_, ?_, ?_⟩⟩
  · exact fun nested parser ht => operand_of_fits hd h ht
  · exact fun room mark parser hm hk hp => operator_of_fits hm hd h hk hp
  · exact parse_numeral_of_fits hd h
  · exact parse_minus_numeral_of_fits hd h
  · exact fun nested parser ht => operand_of_not_fits h ht
  · exact fun room mark parser hm hk hp => operator_of_not_fits hm h hk hp
  · exact parse_numeral_of_not_fits hd h
  · exact parse_minus_numeral_of_not_fits hd h

/-- The greatest signed word is read, and the least one is refused for its digits. -/
theorem integer_literals_bounds :
    Numeral "9223372036854775807" ∧ FitsInteger "9223372036854775807" ∧
    parse "9223372036854775807" = ⟨⟨[.expression ⟨.int, "9223372036854775807"⟩
      (some (.integer ⟨.int, "9223372036854775807"⟩ 9223372036854775807))]⟩, []⟩ ∧
    Numeral "9223372036854775808" ∧ ¬ FitsInteger "9223372036854775808" ∧
    (parse ("-" ++ "9223372036854775808")).errors =
      ["could not parse '9223372036854775808' as integer"] := by
  have hd : Numeral "9223372036854775807" := ⟨by decide, List.all_eq_true.mp (by decide)⟩
  have hn : Numeral "9223372036854775808" := ⟨by decide, List.all_eq_true.mp (by decide)⟩
  have h : FitsInteger "9223372036854775807" := by decide
  have hf : ¬ FitsInteger "9223372036854775808" := by decide
  have hread := ((integer_literals hd).2.2.2.1 h).2.2.1
  have hrefused := ((integer_literals hn).2.2.2.2 hf).2.2.2.2
  have hvalue : decimalValue "9223372036854775807".toList = 9223372036854775807 := by decide
  have hquoted : Text.quoted "9223372036854775808" = "'9223372036854775808'" := by decide +kernel
  rw [hvalue] at hread
  rw [hquoted] at hrefused
  exact ⟨hd, h, hread, hn, hf, hrefused⟩

end Parser

end MonkeyFront
