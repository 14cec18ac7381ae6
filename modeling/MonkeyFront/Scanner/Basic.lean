import MonkeyFront.Cursor
import MonkeyFront.Token.Basic

/-!
# The scanner

A state machine over a cursor. A step puts at most one lexeme into a short queue and says in which
mode to go on.
-/

namespace MonkeyFront

/-- What the scanner is about to read. -/
inductive Mode where
  | text
  /-- A word, from its first letter. -/
  | word
  /-- A number, from its first digit. -/
  | number
  /-- Nothing: the source has been read. -/
  | done
  deriving DecidableEq, Repr

/-- A cursor, the mode of the next step, and the lexemes that wait to be handed out. -/
structure Scanner where
  cursor : Cursor
  mode : Mode
  queue : List Lexeme
  deriving DecidableEq

namespace Scanner

/-- How many lexemes may wait. -/
def capacity : Nat := 2

/-- The scanner before the first character of a source. -/
def ofSource (source : String) : Scanner := ⟨Cursor.ofSource source, .text, []⟩

/-- Lets a token wait that stands for the pending lexeme. A full queue takes none. -/
def enqueue (token : Token) (scanner : Scanner) : Except Fault Scanner :=
  if scanner.queue.length = capacity then .error .queueFull
  else
    let lexeme := ⟨token, scanner.cursor.start, scanner.cursor.position⟩
    .ok { scanner with cursor := scanner.cursor.ignore, queue := scanner.queue ++ [lexeme] }

/-- Makes the pending lexeme a token of the given kind. -/
def emit (kind : Kind) (scanner : Scanner) : Except Fault Scanner :=
  scanner.enqueue ⟨kind, scanner.cursor.lexeme⟩

/-- Makes the pending lexeme an illegal token that carries a message. -/
def reject (message : String) (scanner : Scanner) : Except Fault Scanner :=
  scanner.enqueue ⟨.illegal, message⟩

/-- What a step comes to: the mode to go on in or a fault, and the scanner after it. A fault leaves
the cursor where the step had moved it. -/
abbrev StepResult := Except Fault Mode × Scanner

/-- Goes on with anything after a lexeme has been put into the queue. -/
def afterEnqueue (before : Scanner) : Except Fault Scanner → StepResult
  | .ok scanner => (.ok .text, scanner)
  | .error fault => (.error fault, before)

def illegalCharacter (c : Char) : String :=
  "illegal character: " ++ Text.quoted (String.singleton c)

def badNumber (text : String) : String := "bad number syntax: " ++ Text.quoted text

/-- Reads a sign, or finds out what starts here. -/
def scanText (scanner : Scanner) : StepResult :=
  let move (cursor : Cursor) : Scanner := { scanner with cursor }
  let first := scanner.cursor.skipBlanks.accept fun c => c == '!' || c == '='
  if first.1 then
    let second := (first.2.accept (· == '=')).2
    afterEnqueue (move second) ((move second).emit (Kind.ofName second.lexeme))
  else
    let lone := first.2.accept Sign.isLone
    if lone.1 then
      afterEnqueue (move lone.2) ((move lone.2).emit (Kind.ofName lone.2.lexeme))
    else
      let here := lone.2.peek.2
      match lone.2.peek.1 with
      | none => (.ok .done, move here)
      | some c =>
        if isLetter c then (.ok .word, move here)
        else if isDigit c then (.ok .number, move here)
        else
          afterEnqueue (move here.next.2) ((move here.next.2).reject (illegalCharacter c))

/-- Reads a word: a reserved one or an identifier. -/
def scanWord (scanner : Scanner) : StepResult :=
  let read := { scanner with cursor := scanner.cursor.acceptRun isLetter }
  afterEnqueue read (read.emit (Kind.ofWord read.cursor.lexeme))

/-- Reads a number. Letters right after its digits make it illegal up to the last letter or
digit. -/
def scanNumber (scanner : Scanner) : StepResult :=
  let digits := (scanner.cursor.acceptRun isDigit).peek
  if digits.1.any isLetter then
    let read :=
      { scanner with cursor := digits.2.acceptRun fun c => isLetter c || isDigit c }
    afterEnqueue read (read.reject (badNumber read.cursor.lexeme))
  else
    let read := { scanner with cursor := digits.2 }
    afterEnqueue read (read.emit .int)

/-- The step of the scanner's mode. Nothing is left to do once the source has been read. -/
def scan (scanner : Scanner) : StepResult :=
  match scanner.mode with
  | .text => scanner.scanText
  | .word => scanner.scanWord
  | .number => scanner.scanNumber
  | .done => (.ok .done, scanner)

end Scanner

end MonkeyFront
