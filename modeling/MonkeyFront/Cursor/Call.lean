import MonkeyFront.Cursor

/-!
# Calls of the cursor

A cursor can be called by hand, one operation after the other. A call has an answer, unless it is
refused.
-/

namespace MonkeyFront.Cursor

/-- What can be asked of a cursor. -/
inductive Call where
  | next
  | backup
  | peek
  | ignore
  /-- Reads a character if it is one of those in a text. -/
  | accept (allowed : String)
  /-- Reads characters as long as they are in a text. -/
  | acceptRun (allowed : String)
  | lexeme
  | atEnd
  deriving DecidableEq

/-- What a call comes back with. -/
inductive Answer where
  | done
  /-- A character, or none at the end of the source. -/
  | character (value : Option Char)
  | truth (value : Bool)
  | text (value : String)
  deriving DecidableEq

/-- What a call answers, and the cursor after it. A call that is refused leaves the cursor as it
was. -/
def Call.run (cursor : Cursor) : Call → Except Fault Answer × Cursor
  | .next => (.ok (.character cursor.next.1), cursor.next.2)
  | .backup =>
    match cursor.backup with
    | .ok after => (.ok .done, after)
    | .error fault => (.error fault, cursor)
  | .peek => (.ok (.character cursor.peek.1), cursor.peek.2)
  | .ignore => (.ok .done, cursor.ignore)
  | .accept allowed =>
    let read := cursor.accept allowed.toList.contains
    (.ok (.truth read.1), read.2)
  | .acceptRun allowed => (.ok .done, cursor.acceptRun allowed.toList.contains)
  | .lexeme => (.ok (.text cursor.lexeme), cursor)
  | .atEnd => (.ok (.truth cursor.atEnd), cursor)

end MonkeyFront.Cursor
