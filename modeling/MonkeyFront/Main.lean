import MonkeyFront.CommandLine.Run

/-!
# The program

Carries out what the arguments ask for on the files and the streams of the machine.
-/

namespace MonkeyFront.CommandLine

/-- Whether a code of the machine is a given one. Some of its operations negate their codes. -/
def isCode (expected code : UInt32) : Bool := code == expected || code == -expected

/-- The obstacle that a fault of the machine tells of, if it tells of one. -/
def obstacleOf : IO.Error → Option Obstacle
  | .noFileOrDirectory .. => some .missing
  | .inappropriateType _ code _ => some (if isCode 20 code then .notAFolder else .folder)
  | .invalidArgument _ code _ => if isCode 36 code then some .tooLong else none
  | _ => none

/-- Uses a file, or finds out why it cannot be opened. -/
def useFile {α : Type} (name : String) (use : IO α) : IO (Except FileFault α) := do
  if name.contains '\x00' then return .error .nullCharacter
  try
    return .ok (← use)
  catch error =>
    match obstacleOf error with
    | some obstacle => return .error (.blocked obstacle name)
    | none => throw error

def perform {α : Type} : Job α → IO α
  | .done result => return result
  | .read name next => do perform (next (← useFile name (IO.FS.readBinFile name)))
  | .write name text next => do perform (next (← useFile name (IO.FS.writeFile name text)))

/-- Holds a session with the standard input, from a prompt on. -/
partial def converse (threshold : Threshold) (showTokens : Bool) : IO Unit := do
  let stdout ← IO.getStdout
  stdout.putStr Session.prompt
  stdout.flush
  let line ← (← IO.getStdin).getLine
  if line.isEmpty then stdout.putStr ("\n" ++ Session.farewell)
  else
    let text := if line.endsWith "\n" then (line.dropEnd 1).toString else line
    let answer := Session.turn showTokens text
    (← IO.getStderr).putStr (showLog threshold answer.log)
    stdout.putStr answer.output
    unless answer.ends do converse threshold answer.showTokens

/-- Writes an outcome and gives its status. A failure is told in words. -/
def conclude (outcome : Outcome) : IO UInt32 := do
  (← IO.getStderr).putStr outcome.errorOutput
  (← IO.getStdout).putStr outcome.output
  match outcome.ending with
  | .status code | .exit code => return code.toUInt32
  | .failure failure =>
    (← IO.getStderr).putStr (failure.message ++ "\n")
    return 1

def carryOut (task : Task) : IO UInt32 := do
  match task with
  | .help => conclude .ofHelp
  | .complain misuse => conclude (.ofMisuse misuse)
  | .session threshold showTokens =>
    (← IO.getStdout).putStr Session.greeting
    converse threshold showTokens
    return 0
  | .fulfil threshold request => conclude (.ofResponse threshold (← perform request.job))

end MonkeyFront.CommandLine

/-- Carries out what the arguments ask for. -/
def main (arguments : List String) : IO UInt32 := do
  let environment ← IO.getEnv "MONKEY_LOG_LEVEL"
  MonkeyFront.CommandLine.carryOut (.ofArguments arguments environment)
