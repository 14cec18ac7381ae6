import MonkeyFront.Diagnostic
import MonkeyFront.Precedence
import MonkeyFront.Scanner.Lexemes

/-!
# The parser

A parser stands before the lexemes that are still to come and has two of them in view. What it has
reported so far is never withdrawn.
-/

namespace MonkeyFront

/-- What a parser counts as it goes. Nothing that it does depends on this. -/
structure Tally where
  /-- The statements that were given up, inside blocks too. -/
  dropped : Nat
  /-- The most levels of expressions that were open at once. -/
  deepest : Nat
  deriving DecidableEq

/-- The lexemes to come, how many levels of expressions are open, and what was reported. -/
structure Parser where
  upcoming : List Lexeme
  depth : Nat
  reports : Array Report
  tally : Tally
  deriving DecidableEq

namespace Parser

/-- The most levels of expressions that may be open at once. -/
def maxDepth : Nat := 100

/-- How many lexemes a parser has in view. -/
def window : Nat := 2

def ofLexemes (lexemes : List Lexeme) : Parser := ⟨lexemes, 0, #[], ⟨0, 0⟩⟩

/-- The parser before the first token of a source. -/
def ofSource (source : String) : Parser := ofLexemes (lexemesOf source)

/-- The token under examination. -/
def currentToken (parser : Parser) : Token :=
  match parser.upcoming with
  | [] => Token.eof
  | first :: _ => first.token

/-- The token after the one under examination. -/
def peekToken (parser : Parser) : Token :=
  match parser.upcoming with
  | _ :: second :: _ => second.token
  | _ => Token.eof

def currentIs (kind : Kind) (parser : Parser) : Bool := parser.currentToken.kind == kind

/-- Whether the token after the one under examination is of a kind. -/
def peekIs (kind : Kind) (parser : Parser) : Bool := parser.peekToken.kind == kind

/-- How tightly the token under examination binds what is before it. -/
def currentPrecedence (parser : Parser) : Precedence := parser.currentToken.kind.precedence

/-- How tightly the next token binds what is before it. -/
def peekPrecedence (parser : Parser) : Precedence := parser.peekToken.kind.precedence

def advance (parser : Parser) : Parser := { parser with upcoming := parser.upcoming.tail }

def report (diagnostic : Diagnostic) (parser : Parser) : Parser :=
  { parser with reports := parser.reports.push ⟨diagnostic, parser.upcoming.length - window⟩ }

def errors (parser : Parser) : List String :=
  parser.reports.toList.map (·.diagnostic.message)

/-- The lexemes from the end of a statement on: from its semicolon, or from the lexeme before a
closing brace. -/
def fromStatementEnd : List Lexeme → List Lexeme
  | [] => []
  | first :: others =>
    if first.kind = .sign .semicolon ∨ first.kind = .eof
      ∨ others.head?.map (·.kind) = some (.sign .rightBrace) then first :: others
    else fromStatementEnd others

def skipStatement (parser : Parser) : Parser :=
  { parser with upcoming := fromStatementEnd parser.upcoming }

/-- How many levels of expressions may still be opened. -/
def room (parser : Parser) : Nat := maxDepth - parser.depth

/-! ## Lengths -/

theorem length_fromStatementEnd_le (lexemes : List Lexeme) :
    (fromStatementEnd lexemes).length ≤ lexemes.length := by
  induction lexemes with
  | nil => simp [fromStatementEnd]
  | cons first others ih =>
    unfold fromStatementEnd
    split
    · exact Nat.le_refl _
    · exact Nat.le_succ_of_le ih

theorem upcoming_ne_nil_of_not_eof {parser : Parser} (h : parser.currentIs .eof = false) :
    parser.upcoming ≠ [] := by
  intro hn
  simp [currentIs, currentToken, hn, Token.eof] at h

theorem two_le_length_of_peek {parser : Parser} (h : parser.peekToken.kind ≠ .eof) :
    2 ≤ parser.upcoming.length := by
  unfold peekToken at h
  split at h
  next heq => simp [heq]
  next => exact absurd rfl h

theorem upcoming_ne_nil_of_peekIs {kind : Kind} {parser : Parser} (hk : kind ≠ .eof)
    (h : parser.peekIs kind = true) : parser.upcoming ≠ [] := by
  have hp : parser.peekToken.kind = kind := by simpa [peekIs] using h
  have := two_le_length_of_peek (hp ▸ hk)
  intro hn
  simp [hn] at this

end Parser

end MonkeyFront
