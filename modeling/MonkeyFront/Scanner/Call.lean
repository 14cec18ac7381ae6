import MonkeyFront.Cursor.Call
import MonkeyFront.Scanner.Lexemes

/-!
# Calls of the scanner

A scanner hands out lexemes, but its steps and its cursor can also be called by hand, in whatever
mode it is and with whatever is pending. A call has an answer, unless a fault stops it.
-/

namespace MonkeyFront.Scanner

/-- What can be asked of a scanner. A step that is called by hand leaves the mode to the caller. -/
inductive Call where
  | next
  /-- At most a number of lexemes, fewer at the end of the source. -/
  | take (count : Nat)
  | drain
  | scanText
  | scanWord
  | scanNumber
  /-- The end token is not emitted by hand. -/
  | emit (kind : Kind) (proper : kind ≠ .eof)
  | reject (message : String)
  | skipBlanks
  | cursor (call : Cursor.Call)
  deriving DecidableEq

/-- What a call comes back with. -/
inductive Answer where
  | done
  | lexeme (value : Lexeme)
  | lexemes (values : List Lexeme)
  /-- The mode to go on in. -/
  | mode (value : Mode)
  | cursor (answer : Cursor.Answer)
  deriving DecidableEq

namespace Call

/-- What a haul comes to as the answer to a call. -/
def hauled (haul : Haul) : Except Fault Answer × Scanner :=
  match haul.fault with
  | none => (.ok (.lexemes haul.lexemes), haul.scanner)
  | some fault => (.error fault, haul.scanner)

/-- What a token for the queue comes to as the answer to a call. -/
def queued (answer : Answer) (before : Scanner) :
    Except Fault Scanner → Except Fault Answer × Scanner
  | .ok after => (.ok answer, after)
  | .error fault => (.error fault, before)

/-- What a step comes to as the answer to a call. -/
def stepped (result : StepResult) : Except Fault Answer × Scanner := (result.1.map .mode, result.2)

def run (scanner : Scanner) : Call → Except Fault Answer × Scanner
  | .next => (scanner.next.1.map .lexeme, scanner.next.2)
  | .take count => hauled (scanner.take count)
  | .drain => hauled scanner.drain
  | .scanText => stepped scanner.scanText
  | .scanWord => stepped scanner.scanWord
  | .scanNumber => stepped scanner.scanNumber
  | .emit kind _ => queued .done scanner (scanner.emit kind)
  | .reject message => queued (.mode .text) scanner (scanner.reject message)
  | .skipBlanks => (.ok .done, { scanner with cursor := scanner.cursor.skipBlanks })
  | .cursor call =>
    let result := call.run scanner.cursor
    (result.1.map .cursor, { scanner with cursor := result.2 })

end Call

/-- The scanner after calls in a row. -/
def afterUse (scanner : Scanner) (calls : List Call) : Scanner :=
  calls.foldl (fun scanner call => (call.run scanner).2) scanner

end MonkeyFront.Scanner
