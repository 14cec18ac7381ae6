import MonkeyFront.Token.Basic

/-!
# Diagnostics

Why a statement was given up.
-/

namespace MonkeyFront

/-- What is wrong with a source text at some place. -/
inductive Diagnostic where
  /-- Another kind of token has to come next. -/
  | unexpected (expected got : Kind)
  | noOperand (kind : Kind)
  | illegal (literal : String)
  /-- The literal is not an integer in range. -/
  | badInteger (literal : String)
  | tooDeep
  | remark (text : String)
  deriving DecidableEq

namespace Diagnostic

def message : Diagnostic → String
  | unexpected expected got =>
      "expected next token to be " ++ expected.name ++ ", got " ++ got.name ++ " instead"
  | noOperand kind => "no prefix parse function for " ++ kind.name ++ " found"
  | illegal literal => "illegal token: " ++ literal
  | badInteger literal => "could not parse " ++ Text.quoted literal ++ " as integer"
  | tooDeep => "expression nested too deeply"
  | remark text => text

/-- What is wrong with a token where an expression has to start. -/
def ofStray (token : Token) : Diagnostic :=
  if token.kind = .illegal then illegal token.literal else noOperand token.kind

end Diagnostic

/-- A diagnostic, and how many lexemes had not been read when it was made. -/
structure Report where
  diagnostic : Diagnostic
  unread : Nat
  deriving DecidableEq

end MonkeyFront
