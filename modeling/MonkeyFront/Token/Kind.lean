import MonkeyFront.Token.Word
import MonkeyFront.Token.Sign

/-!
# Kinds of tokens

The kinds that scanning yields form a closed set. A token built by hand may carry any other name as
its kind, so two kinds are equal exactly when their names are.
-/

namespace MonkeyFront

/-- The names of the closed set of kinds, in the order of their characters. -/
def reservedKindNames : List String :=
  ["!", "!=", "(", ")", "*", "+", ",", "-", "/", ";", "<", "=", "==", ">", "ELSE", "EOF", "FALSE",
    "FUNCTION", "IDENT", "IF", "ILLEGAL", "INT", "LET", "RETURN", "TRUE", "\x7b", "\x7d"]

inductive Kind where
  /-- Text that is no token; the literal says why. -/
  | illegal
  | eof
  | ident
  | int
  | keyword (word : Keyword)
  | sign (mark : Sign)
  | other (name : String) (unreserved : name ∉ reservedKindNames)
  deriving DecidableEq

namespace Kind

def name : Kind → String
  | .illegal => "ILLEGAL"
  | .eof => "EOF"
  | .ident => "IDENT"
  | .int => "INT"
  | .keyword word => word.kindName
  | .sign mark => mark.spelling
  | .other text _ => text

/-- The closed set of kinds. -/
def reserved : List Kind :=
  [illegal, eof, ident, int] ++ Keyword.all.map keyword ++ Sign.all.map sign

def ofName (name : String) : Kind :=
  if h : name ∈ reservedKindNames then (reserved.find? (·.name == name)).getD illegal
  else other name h

@[simp] theorem ofName_name (kind : Kind) : ofName kind.name = kind := by
  cases kind with
  | keyword word => cases word <;> decide
  | sign mark => cases mark <;> decide
  | other text h => simp [ofName, Kind.name, h]
  | _ => decide

theorem name_injective {a b : Kind} (h : a.name = b.name) : a = b := by
  rw [← ofName_name a, h, ofName_name]

@[simp] theorem name_ofName (name : String) : (ofName name).name = name := by
  by_cases h : name ∈ reservedKindNames
  · revert name
    decide
  · simp [ofName, h, Kind.name]

/-- The kind of a word: its reserved word's, or an identifier's. -/
def ofWord (text : String) : Kind :=
  match Keyword.ofSpelling? text with
  | some word => keyword word
  | none => ident

end Kind

end MonkeyFront
