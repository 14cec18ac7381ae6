/-!
# Faults

What can go wrong when the cursor or the queue of the scanner is driven by hand. Source text causes
no fault: what is no token becomes an illegal token.
-/

namespace MonkeyFront

/-- A misuse of the scanner. -/
inductive Fault where
  /-- A step back with no read before it that has not been taken back. -/
  | backupWithoutRead (position : Nat)
  | queueFull
  deriving DecidableEq, Repr

def Fault.message : Fault → String
  | .backupWithoutRead position =>
      "CharacterStreamError: backup without a preceding read at position=<" ++ toString position ++ ">"
  | .queueFull => "token buffer overflow"

end MonkeyFront
