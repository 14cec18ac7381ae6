/-!
# Lines

Texts are split at line feeds. Text from a file may end its lines in other ways, which are turned
into line feeds first.
-/

namespace MonkeyFront.Text

/-- The pieces of a text between line feeds. -/
def splitLines : List Char → List (List Char)
  | [] => [[]]
  | c :: others =>
    match splitLines others with
    | [] => [[c]]
    | first :: more => if c = '\n' then [] :: first :: more else (c :: first) :: more

/-- The lines of an input. A last line needs no line feed, and after a line feed no line has to
follow. -/
def inputLines (text : String) : List String :=
  let pieces := splitLines text.toList
  let lines := if pieces.getLast? = some [] then pieces.dropLast else pieces
  lines.map String.ofList

/-- A text in which a carriage return, with the line feed after it if there is one, has become a
line feed. -/
def unifyLineEnds : List Char → List Char
  | [] => []
  | '\r' :: '\n' :: others => '\n' :: unifyLineEnds others
  | c :: others => (if c = '\r' then '\n' else c) :: unifyLineEnds others

/-- Texts in rows, each with a line feed after it. -/
def rows (texts : List String) : String := String.join (texts.map (· ++ "\n"))

end MonkeyFront.Text
