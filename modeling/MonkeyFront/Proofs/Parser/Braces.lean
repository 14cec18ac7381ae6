import MonkeyFront.Proofs.Parser.Completeness
import MonkeyFront.Proofs.Parser.Levels
import MonkeyFront.Proofs.Parser.Soundness
import MonkeyFront.Proofs.Scanner.Locality

/-!
# Statements in braces

The statements of a block and those of a source are parsed alike, although they end differently: the
same rule repeats, and the grammar has one phrase for both. Around a block one more level is open, so
a source goes into braces whenever it leaves a level to spare.
-/

namespace MonkeyFront

open Grammar

/-! ## Sources in braces -/

theorem delimits_brace : Delimits '\x7b' ∧ Delimits '\x7d' :=
  ⟨⟨by decide, by decide, by decide⟩, ⟨by decide, by decide, by decide⟩⟩

/-- What stands before braces, inside of them and after them is scanned apart. -/
theorem tokenize_braces (before inside after : String) :
    tokenize (before ++ "\x7b" ++ inside ++ "\x7d" ++ after) =
      (tokenize before).dropLast ++ .ofSign .leftBrace ::
        ((tokenize inside).dropLast ++ .ofSign .rightBrace :: tokenize after) := by
  have hopen := tokenize_append_lone .leftBrace rfl delimits_brace.1 (by decide)
  have hclose := tokenize_append_lone .rightBrace rfl delimits_brace.2 (by decide)
  calc tokenize (before ++ "\x7b" ++ inside ++ "\x7d" ++ after)
      = tokenize (before ++ "\x7b" ++ (inside ++ "\x7d" ++ after)) := by
        simp only [String.append_assoc]
    _ = (tokenize before).dropLast ++ .ofSign .leftBrace :: tokenize (inside ++ "\x7d" ++ after) :=
        hopen _ _
    _ = _ := congrArg _ (congrArg _ (hclose inside after))

namespace Parser

/-- A source that is accepted derives its program without more nesting than levels were opened. -/
theorem reads_source_of_deepest {source : String} {most : Nat} (hmost : most ≤ maxDepth)
    (h : (parse source).errors = []) (hd : (atEnd source).tally.deepest ≤ most) :
    ∃ nesting tokens, Derives (.statements (parse source).program.statements) nesting tokens ∧
      nesting ≤ most ∧ Readable tokens ∧ tokenize source = tokens ++ [Token.eof] := by
  obtain ⟨values, -, hrun⟩ := program_atEnd source
  have hquiet : Quiet (ofSource source) (atEnd source) := by
    have : (atEnd source).reports.toList = [] := by
      simpa [Parsed.errors, reports_parse] using h
    exact Array.toList_inj.mp this
  rw [parse_of_run hrun]
  exact reads_program ((program_of_deepest hmost hd).trans hrun) hquiet

end Parser

/-! ## Bodies -/

/-- Statements as the block that they make in braces. -/
def Block.inBraces (rows : List Statement) : Block := .mk (.ofSign .leftBrace) rows

section Bodies

variable {source : String} {rows : List Statement} {nesting : Nat} {tokens : List Token}
  (hd : Derives (.statements rows) nesting tokens) (hle : nesting < Parser.maxDepth)
  (hr : Parser.Readable tokens) (ht : tokenize source = tokens ++ [Token.eof])
include hd hle hr ht

omit hle hr ht in
theorem derives_inBraces : Derives (.block (.inBraces rows)) nesting
    (.ofSign .leftBrace :: tokens ++ [.ofSign .rightBrace]) :=
  .block rfl hd rfl

theorem parse_function_of_derives :
    parse ("fn() \x7b" ++ source ++ "\x7d") =
      ⟨⟨[.expression ⟨.keyword .fnWord, "fn"⟩
        (some (.function ⟨.keyword .fnWord, "fn"⟩ [] (.inBraces rows)))]⟩, []⟩ := by
  have hfunction : Derives
      (.expression .call (.function ⟨.keyword .fnWord, "fn"⟩ [] (.inBraces rows))) (nesting + 1)
      (⟨.keyword .fnWord, "fn"⟩ :: .ofSign .leftParen :: [] ++ .ofSign .rightParen ::
        (.ofSign .leftBrace :: tokens ++ [.ofSign .rightBrace])) :=
    .function rfl rfl .none rfl (derives_inBraces hd)
  have htext : "fn() \x7b" ++ source ++ "\x7d" = "fn() " ++ "\x7b" ++ source ++ "\x7d" ++ "" := by
    rw [String.append_empty]
    rfl
  have hword : (tokenize "fn() ").dropLast =
      [⟨.keyword .fnWord, "fn"⟩, .ofSign .leftParen, .ofSign .rightParen] := by
    decide +kernel
  have hempty : tokenize "" = [Token.eof] := by decide +kernel
  refine Parser.parse_of_expression hfunction hle ?_ ?_
  · simp [hr]
  · rw [htext, tokenize_braces, hword, hempty, ht, List.dropLast_concat]
    simp

theorem parse_choice_of_derives :
    parse ("if (c) \x7b" ++ source ++ "\x7d else \x7b" ++ source ++ "\x7d") =
      ⟨⟨[.expression ⟨.keyword .ifWord, "if"⟩
        (some (.conditional ⟨.keyword .ifWord, "if"⟩ (.identifier ⟨⟨.ident, "c"⟩, "c"⟩)
          (.inBraces rows) (some (.inBraces rows))))]⟩, []⟩ := by
  have hname : Derives (.expression .call (.identifier ⟨⟨.ident, "c"⟩, "c"⟩)) 1 [⟨.ident, "c"⟩] :=
    .name rfl
  have hbody := derives_inBraces hd
  have hchoice : Derives
      (.expression .call (.conditional ⟨.keyword .ifWord, "if"⟩ (.identifier ⟨⟨.ident, "c"⟩, "c"⟩)
        (.inBraces rows) (some (.inBraces rows))))
      (max (max (1 + 1) (nesting + 1)) (nesting + 1))
      (⟨.keyword .ifWord, "if"⟩ :: .ofSign .leftParen :: [⟨.ident, "c"⟩] ++ .ofSign .rightParen ::
        (.ofSign .leftBrace :: tokens ++ [.ofSign .rightBrace]) ++
        ⟨.keyword .elseWord, "else"⟩ :: (.ofSign .leftBrace :: tokens ++ [.ofSign .rightBrace])) :=
    .alternative rfl rfl (hname.loosen Stratum.call.equality_le) rfl hbody rfl hbody
  have htext : "if (c) \x7b" ++ source ++ "\x7d else \x7b" ++ source ++ "\x7d" =
      "if (c) " ++ "\x7b" ++ source ++ "\x7d" ++
        (" else " ++ "\x7b" ++ source ++ "\x7d" ++ "") := by
    have hopen : "if (c) \x7b" = "if (c) " ++ "\x7b" := rfl
    have helse : "\x7d else \x7b" = "\x7d" ++ (" else " ++ "\x7b") := rfl
    rw [hopen, helse, String.append_empty]
    simp only [String.append_assoc]
  have hword : (tokenize "if (c) ").dropLast = [⟨.keyword .ifWord, "if"⟩, .ofSign .leftParen,
      ⟨.ident, "c"⟩, .ofSign .rightParen] := by
    decide +kernel
  have helse : (tokenize " else ").dropLast = [⟨.keyword .elseWord, "else"⟩] := by decide +kernel
  have hempty : tokenize "" = [Token.eof] := by decide +kernel
  refine Parser.parse_of_expression hchoice ?_ ?_ ?_
  · have : Parser.maxDepth = 100 := rfl
    omega
  · simp [hr]
  · rw [htext, tokenize_braces, tokenize_braces, hword, helse, hempty, ht, List.dropLast_concat]
    simp

end Bodies

/-- What is accepted with a level to spare is the body of a function, and of both branches of a
choice, statement for statement. -/
theorem parse_in_braces {source : String} (h : (parse source).errors = [])
    (hd : (Parser.atEnd source).tally.deepest ≤ 99) :
    let body : Block := .mk ⟨.sign .leftBrace, "\x7b"⟩ (parse source).program.statements
    let function := parse ("fn() \x7b" ++ source ++ "\x7d")
    let choice := parse ("if (c) \x7b" ++ source ++ "\x7d else \x7b" ++ source ++ "\x7d")
    function.errors = [] ∧
    function.program.statements = [.expression ⟨.keyword .fnWord, "fn"⟩
      (some (.function ⟨.keyword .fnWord, "fn"⟩ [] body))] ∧
    choice.errors = [] ∧
    choice.program.statements = [.expression ⟨.keyword .ifWord, "if"⟩
      (some (.conditional ⟨.keyword .ifWord, "if"⟩ (.identifier ⟨⟨.ident, "c"⟩, "c"⟩) body
        (some body)))] := by
  intro body function choice
  obtain ⟨nesting, tokens, hrows, hle, hr, ht⟩ :=
    Parser.reads_source_of_deepest (by decide) h hd
  have hlt : nesting < Parser.maxDepth := Nat.lt_succ_of_le hle
  have hfunction : function = _ := parse_function_of_derives hrows hlt hr ht
  have hchoice : choice = _ := parse_choice_of_derives hrows hlt hr ht
  rw [hfunction, hchoice]
  exact ⟨rfl, rfl, rfl, rfl⟩

/-- The last statement needs no semicolon, in braces or not. -/
theorem parse_in_braces_unclosed :
    (parse "let f = fn(x) \x7b return -x \x7d; f(1)").errors = [] ∧
    (Parser.atEnd "let f = fn(x) \x7b return -x \x7d; f(1)").tally.deepest ≤ 99 ∧
    (parse ("fn() \x7b" ++ "let f = fn(x) \x7b return -x \x7d; f(1)" ++ "\x7d")).errors = [] :=
  have h : (parse "let f = fn(x) \x7b return -x \x7d; f(1)").errors = [] := by decide +kernel
  have hd : (Parser.atEnd "let f = fn(x) \x7b return -x \x7d; f(1)").tally.deepest ≤ 99 := by
    decide +kernel
  ⟨h, hd, (parse_in_braces h hd).1⟩

end MonkeyFront
