import MonkeyFront.Token.Kind
import MonkeyFront.Text.Quoted

/-!
# Tokens

A token is a kind and a literal. A lexeme is a token with the span of source text it stands for.
-/

namespace MonkeyFront

/-- A classified piece of source text. The literal of an illegal token is a message. -/
structure Token where
  kind : Kind
  literal : String
  deriving DecidableEq

namespace Token

/-- The token after the last one of a source. -/
def eof : Token := ⟨.eof, ""⟩

/-- A token as text, for a reader. -/
def text (token : Token) : String :=
  "Token(" ++ token.kind.name ++ ", " ++ token.literal ++ ")"

/-- Why a token's parts cannot be assigned: tokens do not change. -/
def assignmentRefusal (part : String) : String :=
  "Token is immutable, cannot set " ++ Text.quoted part

end Token

/-- A token with the positions where its text starts and ends in the source. -/
structure Lexeme where
  token : Token
  start : Nat
  stop : Nat
  deriving DecidableEq

namespace Lexeme

def kind (lexeme : Lexeme) : Kind := lexeme.token.kind

/-- The end of the source, at a position. -/
def eof (position : Nat) : Lexeme := ⟨Token.eof, position, position⟩

def isIllegal (lexeme : Lexeme) : Bool := lexeme.kind == .illegal

end Lexeme

end MonkeyFront
