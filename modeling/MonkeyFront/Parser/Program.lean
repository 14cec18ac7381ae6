import MonkeyFront.Parser.Expression

/-!
# Parsing a source

The parser reads a whole source: the statements that are well formed make the program, and each of
the others leaves a report.
-/

namespace MonkeyFront

namespace Parser

/-- A rule around expressions, with the room that the parser has left for their levels. -/
def withRoom {α : Type} (rule : Nested → Rule α) : Rule α := fun parser =>
  rule (nestedIn parser.room) parser

/-- The expression that starts here, as far as its operators bind tighter than a strength. -/
def expression (strength : Precedence) : Rule Expression :=
  withRoom fun nested => nested.parse strength

end Parser

/-- What parsing comes to: the statements that were kept, and the reports. -/
structure Parsed where
  program : Program
  reports : List Report

namespace Parsed

def errors (parsed : Parsed) : List String := parsed.reports.map (·.diagnostic.message)

def ofLexemes (lexemes : List Lexeme) : Parsed :=
  match Parser.withRoom Parser.program (Parser.ofLexemes lexemes) with
  | (some program, after) => ⟨program, after.reports.toList⟩
  | (none, after) => ⟨⟨[]⟩, after.reports.toList⟩

end Parsed

/-- Parses a source. What is malformed is reported and left out of the program. -/
def parse (source : String) : Parsed := Parsed.ofLexemes (lexemesOf source)

/-- Why a source was not accepted as a whole: the errors, at least one. -/
structure Rejection where
  errors : List String
  deriving DecidableEq

def Rejection.message (rejection : Rejection) : String :=
  toString rejection.errors.length ++ " parse error(s): "
    ++ String.intercalate "; " rejection.errors

/-- Parses a source that has to be well formed throughout. -/
def parseStrict (source : String) : Except Rejection Program :=
  let parsed := parse source
  if parsed.reports.isEmpty then .ok parsed.program else .error ⟨parsed.errors⟩

end MonkeyFront
