import MonkeyFront.Parser.Program
import MonkeyFront.Text.Capital
import MonkeyFront.Text.Lines

/-!
# Log

What is going on inside, as lines for a reader. A line is shown if it is severe enough.
-/

namespace MonkeyFront

inductive Severity where
  | debug | info
  deriving DecidableEq, Repr

namespace Severity

def rank : Severity → Nat
  | .debug => 10
  | .info => 20

def name : Severity → String
  | .debug => "DEBUG"
  | .info => "INFO"

end Severity

/-- Which part of the program a line comes from. -/
inductive LogSource where
  | scanner | parser | session | command
  deriving DecidableEq, Repr

def LogSource.name : LogSource → String
  | .scanner => "monkey.monkey_lexer"
  | .parser => "monkey.monkey_parser"
  | .session => "monkey.monkey_repl"
  | .command => "monkey.monkey_cli"

structure LogLine where
  severity : Severity
  source : LogSource
  message : String
  deriving DecidableEq

def LogLine.text (line : LogLine) : String :=
  line.severity.name ++ " " ++ line.source.name ++ ": " ++ line.message

/-- The rank from which on lines are shown. -/
abbrev Threshold := Nat

namespace Threshold

/-- The threshold that shows every line there is. -/
def debug : Threshold := 10

/-- The threshold that shows warnings and worse, of which there are none. -/
def warning : Threshold := 30

def named : List (String × Threshold) :=
  [("CRITICAL", 50), ("FATAL", 50), ("ERROR", 40), ("WARN", 30), ("WARNING", 30), ("INFO", 20),
    ("DEBUG", 10), ("NOTSET", 0)]

/-- The threshold that a text asks for, in small letters or capitals. A text that names none asks
for warnings. -/
def ofText (text : String) : Threshold := (named.lookup (Text.capitals text)).getD warning

end Threshold

/-- The lines that are shown from a threshold on, as text. -/
def showLog (threshold : Threshold) (lines : List LogLine) : String :=
  Text.rows ((lines.filter fun line => threshold ≤ line.severity.rank).map (·.text))

/-! ## The log of scanning and parsing -/

def Lexeme.logLine (lexeme : Lexeme) : LogLine :=
  ⟨.debug, .scanner, "illegal input at " ++ toString lexeme.start ++ ": " ++ lexeme.token.literal⟩

def scanLog (lexemes : List Lexeme) : List LogLine :=
  (lexemes.filter (·.isIllegal)).map (·.logLine)

def Report.logLine (report : Report) : LogLine :=
  ⟨.debug, .parser, "parse error: " ++ report.diagnostic.message⟩

/-- The lines about lexemes and reports in the order of the work: a report comes after the lexemes
that had been read when it was made. -/
def interleaveLog (lexemes : List Lexeme) : List Report → List LogLine
  | [] => scanLog lexemes
  | report :: others =>
    let read := lexemes.length - report.unread
    scanLog (lexemes.take read) ++ report.logLine :: interleaveLog (lexemes.drop read) others

/-- The line that sums up what parsing came to. -/
def Parsed.logLine (parsed : Parsed) : LogLine :=
  ⟨.debug, .parser, "parsed " ++ toString parsed.program.statements.length
    ++ " statement(s) with " ++ toString parsed.reports.length ++ " error(s)"⟩

def parseLog (lexemes : List Lexeme) : List LogLine :=
  let parsed := Parsed.ofLexemes lexemes
  interleaveLog lexemes parsed.reports ++ [parsed.logLine]

end MonkeyFront
