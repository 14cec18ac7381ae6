/-!
# Operators and delimiters

Signs of one or two characters. A sign is its own kind: the kind is named by the sign's text.
-/

namespace MonkeyFront

/-- An operator or a delimiter. -/
inductive Sign where
  | assign | plus | minus | bang | asterisk | slash | less | greater | equal | notEqual
  | comma | semicolon | leftParen | rightParen | leftBrace | rightBrace
  deriving DecidableEq, Repr

namespace Sign

def all : List Sign :=
  [.assign, .plus, .minus, .bang, .asterisk, .slash, .less, .greater, .equal, .notEqual,
    .comma, .semicolon, .leftParen, .rightParen, .leftBrace, .rightBrace]

theorem mem_all (sign : Sign) : sign ∈ all := by
  cases sign <;> decide

def chars : Sign → List Char
  | .assign => ['=']
  | .plus => ['+']
  | .minus => ['-']
  | .bang => ['!']
  | .asterisk => ['*']
  | .slash => ['/']
  | .less => ['<']
  | .greater => ['>']
  | .equal => ['=', '=']
  | .notEqual => ['!', '=']
  | .comma => [',']
  | .semicolon => [';']
  | .leftParen => ['(']
  | .rightParen => [')']
  | .leftBrace => ['\x7b']
  | .rightBrace => ['\x7d']

/-- The sign as it stands in a source text. -/
def spelling (sign : Sign) : String := String.ofList sign.chars

/-- The signs that no other sign extends or starts with, in the order in which they are listed. -/
def lone : List Sign :=
  [.semicolon, .leftParen, .rightParen, .comma, .plus, .minus, .slash, .asterisk, .less, .greater,
    .leftBrace, .rightBrace]

/-- Whether a character is a lone sign. -/
def isLone (c : Char) : Bool := lone.any (·.chars == [c])

def ofSpelling? (text : String) : Option Sign :=
  all.find? (·.spelling == text)

theorem ofSpelling?_spelling (sign : Sign) : ofSpelling? sign.spelling = some sign := by
  cases sign <;> decide

theorem spelling_of_ofSpelling? {text : String} {sign : Sign}
    (h : ofSpelling? text = some sign) : sign.spelling = text := by
  simpa using List.find?_some h

end Sign

end MonkeyFront
