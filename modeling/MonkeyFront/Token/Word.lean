/-!
# Words and numbers

A word is a run of letters, a number a run of digits. Seven words are reserved; the others are
identifiers.
-/

namespace MonkeyFront

/-- Whether a character may stand in a word: an ASCII letter or the underscore. -/
def isLetter (c : Char) : Bool := c.isAlpha || c == '_'

def isDigit (c : Char) : Bool := c.isDigit

/-- A reserved word of the language. -/
inductive Keyword where
  | fnWord | letWord | trueWord | falseWord | ifWord | elseWord | returnWord
  deriving DecidableEq, Repr

namespace Keyword

def all : List Keyword :=
  [.fnWord, .letWord, .trueWord, .falseWord, .ifWord, .elseWord, .returnWord]

theorem mem_all (word : Keyword) : word ∈ all := by
  cases word <;> decide

/-- The word as it stands in a source text. -/
def spelling : Keyword → String
  | .fnWord => "fn"
  | .letWord => "let"
  | .trueWord => "true"
  | .falseWord => "false"
  | .ifWord => "if"
  | .elseWord => "else"
  | .returnWord => "return"

/-- The name of the kind of token that the word makes. -/
def kindName : Keyword → String
  | .fnWord => "FUNCTION"
  | .letWord => "LET"
  | .trueWord => "TRUE"
  | .falseWord => "FALSE"
  | .ifWord => "IF"
  | .elseWord => "ELSE"
  | .returnWord => "RETURN"

def ofSpelling? (text : String) : Option Keyword :=
  all.find? (·.spelling == text)

theorem ofSpelling?_spelling (word : Keyword) : ofSpelling? word.spelling = some word := by
  cases word <;> decide

theorem spelling_of_ofSpelling? {text : String} {word : Keyword}
    (h : ofSpelling? text = some word) : word.spelling = text := by
  simpa using List.find?_some h

end Keyword

end MonkeyFront
