import MonkeyFront.Log
import MonkeyFront.Tree.Rendering
import MonkeyFront.Text.Blank

/-!
# Sessions

A conversation in lines. Each line is a source text of its own, or a word that steers the session.
From one line to the next no more is kept than whether tokens are shown.
-/

namespace MonkeyFront.Session

def greeting : String := "Monkey REPL. Type 'exit' or 'quit' to leave.\n"

/-- What stands before a line of input. -/
def prompt : String := ">> "

def farewell : String := "Exiting Monkey REPL.\n"

/-- What a source text comes to in a session: its tokens, or its program as rendered, or its
errors. -/
def evaluate (showTokens : Bool) (source : String) : String :=
  if showTokens then Text.rows ((tokenize source).map (·.text))
  else
    let parsed := parse source
    if parsed.reports.isEmpty then parsed.program.render ++ "\n"
    else Text.rows ("[error] >>> parser errors:" :: parsed.errors.map ("\t" ++ ·))

/-- The log of evaluating a source text. -/
def logOf (showTokens : Bool) (source : String) : List LogLine :=
  if showTokens then scanLog (lexemesOf source) else parseLog (lexemesOf source)

/-- What happens at a line of input: the session ends or goes on, it says something, and the log
grows. -/
structure Turn where
  showTokens : Bool
  ends : Bool
  output : String
  log : List LogLine

/-- The answer to a line of input. -/
def turn (showTokens : Bool) (line : String) : Turn :=
  let source := Text.trimBlanks line
  if source = "" then ⟨showTokens, false, "", []⟩
  else if source = "exit" ∨ source = "quit" then ⟨showTokens, true, farewell, []⟩
  else if source = "tokens" then
    ⟨!showTokens, false, "[mode] >>> Token mode " ++ (if showTokens then "OFF" else "ON") ++ "\n", []⟩
  else
    ⟨showTokens, false, evaluate showTokens source,
      ⟨.debug, .session, "repl input: " ++ Text.quoted source⟩ :: logOf showTokens source⟩

/-- What a session says and logs. -/
structure Transcript where
  output : String
  log : List LogLine

/-- A transcript after a text and some lines of the log. -/
def Transcript.after (output : String) (log : List LogLine) (transcript : Transcript) : Transcript :=
  ⟨output ++ transcript.output, log ++ transcript.log⟩

/-- The session from a prompt on. The end of the input ends it. -/
def converse (showTokens : Bool) : List String → Transcript
  | [] => ⟨prompt ++ "\n" ++ farewell, []⟩
  | line :: others =>
    let answer := turn showTokens line
    if answer.ends then ⟨prompt ++ answer.output, answer.log⟩
    else (converse answer.showTokens others).after (prompt ++ answer.output) answer.log

def hold (showTokens : Bool) (lines : List String) : Transcript :=
  (converse showTokens lines).after greeting []

end MonkeyFront.Session
