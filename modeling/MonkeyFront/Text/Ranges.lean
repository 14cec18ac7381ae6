/-!
# Tables of code points

A character property is a list of inclusive ranges of code points.
-/

namespace MonkeyFront.Text

/-- A set of characters, given by inclusive ranges of code points. -/
abbrev Ranges := List (Nat × Nat)

namespace Ranges

/-- Whether the code point of a character lies in one of the ranges. -/
def covers (table : Ranges) (c : Char) : Bool :=
  table.any fun range => range.1 ≤ c.toNat && c.toNat ≤ range.2

theorem covers_iff {table : Ranges} {c : Char} :
    table.covers c = true ↔ ∃ range ∈ table, range.1 ≤ c.toNat ∧ c.toNat ≤ range.2 := by
  simp [covers]

end Ranges

end MonkeyFront.Text
