import MonkeyFront.Proofs.Grammar.Basic

/-!
# Strata and binding strengths

The binding strengths of the parser order the strata of the grammar: the operators of a stratum are
those of its strength, and each stratum takes in all tighter ones.
-/

namespace MonkeyFront

theorem Precedence.level_pos (strength : Precedence) :
    Precedence.lowest.level ≤ strength.level := by
  cases strength <;> decide

theorem Precedence.level_le_call (strength : Precedence) :
    strength.level ≤ Precedence.call.level := by
  cases strength <;> decide

/-- What binds tighter than the lowest strength is a sign that continues an expression. -/
theorem Kind.exists_sign {kind : Kind} {strength : Precedence} (h : strength < kind.precedence) :
    ∃ sign, kind = .sign sign ∧ sign.precedence? = some kind.precedence := by
  have hne : kind.precedence ≠ .lowest := by
    intro hl
    rw [hl] at h
    exact absurd h (Nat.not_lt.mpr strength.level_pos)
  cases kind with
  | sign mark =>
      refine ⟨mark, rfl, ?_⟩
      cases hp : mark.precedence? with
      | none => simp [Kind.precedence, Kind.precedence?, hp] at hne
      | some own => simp [Kind.precedence, Kind.precedence?, hp]
  | _ => exact absurd rfl hne

namespace Grammar

namespace Stratum

/-- How tightly the constructs of a stratum bind. -/
def strength : Stratum → Precedence
  | .equality => .equals
  | .comparison => .lessGreater
  | .sum => .sum
  | .product => .product
  | .unary => .unary
  | .call => .call

theorem lowest_lt_strength (stratum : Stratum) : Precedence.lowest < stratum.strength := by
  cases stratum <;> decide

theorem precedence?_of_mem {stratum : Stratum} {sign : Sign} (h : sign ∈ stratum.operators) :
    sign.precedence? = some stratum.strength := by
  cases stratum <;> simp [operators] at h <;> rcases h with rfl | rfl <;> rfl

theorem ne_leftParen_of_mem {stratum : Stratum} {sign : Sign} (h : sign ∈ stratum.operators) :
    sign ≠ .leftParen := by
  rintro rfl
  cases stratum <;> simp [operators] at h

theorem ne_semicolon_of_mem {stratum : Stratum} {sign : Sign} (h : sign ∈ stratum.operators) :
    sign ≠ .semicolon := by
  rintro rfl
  cases stratum <;> simp [operators] at h

theorem ne_brace_of_mem {stratum : Stratum} {sign : Sign} (h : sign ∈ stratum.operators) :
    sign ≠ .leftBrace ∧ sign ≠ .rightBrace := by
  constructor <;> rintro rfl <;> cases stratum <;> simp [operators] at h

/-- A sign that continues an expression and opens no call is a binary operator. -/
theorem exists_mem_operators {sign : Sign} {strength : Precedence}
    (h : sign.precedence? = some strength) (hs : sign ≠ .leftParen) :
    ∃ stratum : Stratum, sign ∈ stratum.operators ∧ stratum.strength = strength := by
  cases sign <;> simp [Sign.precedence?] at h hs
  case equal | notEqual => exact ⟨.equality, by decide, h⟩
  case less | greater => exact ⟨.comparison, by decide, h⟩
  case plus | minus => exact ⟨.sum, by decide, h⟩
  case asterisk | slash => exact ⟨.product, by decide, h⟩

theorem spelling_of_mem_operators {stratum : Stratum} {sign : Sign}
    (h : sign ∈ stratum.operators) :
    sign.spelling ∈ ["+", "-", "*", "/", "<", ">", "==", "!="] := by
  revert sign
  cases stratum <;> decide

theorem exists_mem_of_spelling {text : String}
    (h : text ∈ ["+", "-", "*", "/", "<", ">", "==", "!="]) :
    ∃ (stratum : Stratum) (sign : Sign), sign ∈ stratum.operators ∧ sign.spelling = text := by
  simp only [List.mem_cons, List.not_mem_nil, or_false] at h
  rcases h with rfl | rfl | rfl | rfl | rfl | rfl | rfl | rfl
  · exact ⟨.sum, .plus, by decide, rfl⟩
  · exact ⟨.sum, .minus, by decide, rfl⟩
  · exact ⟨.product, .asterisk, by decide, rfl⟩
  · exact ⟨.product, .slash, by decide, rfl⟩
  · exact ⟨.comparison, .less, by decide, rfl⟩
  · exact ⟨.comparison, .greater, by decide, rfl⟩
  · exact ⟨.equality, .equal, by decide, rfl⟩
  · exact ⟨.equality, .notEqual, by decide, rfl⟩

theorem level_next {stratum : Stratum} (h : stratum ≠ .call) :
    stratum.next.strength.level = stratum.strength.level + 1 := by
  cases stratum <;> first | rfl | exact absurd rfl h

theorem strength_le_next (stratum : Stratum) :
    stratum.strength.level ≤ stratum.next.strength.level := by
  cases stratum <;> decide

theorem level_next_of_mem {stratum : Stratum} {sign : Sign} (h : sign ∈ stratum.operators) :
    stratum.next.strength.level = stratum.strength.level + 1 :=
  level_next (by rintro rfl; simp [operators] at h)

theorem equality_le (stratum : Stratum) : equality.strength.level ≤ stratum.strength.level := by
  cases stratum <;> decide

theorem lt_next_of_mem {stratum : Stratum} {sign : Sign} (h : sign ∈ stratum.operators) :
    stratum.strength < stratum.next.strength := by
  rw [Precedence.lt_iff, level_next_of_mem h]
  exact Nat.lt_succ_self _

theorem lt_call_of_mem {stratum : Stratum} {sign : Sign} (h : sign ∈ stratum.operators) :
    stratum.strength < .call :=
  Nat.lt_of_lt_of_le (lt_next_of_mem h) (Precedence.level_le_call _)

theorem strength_injective {s t : Stratum} (h : s.strength.level = t.strength.level) : s = t := by
  cases s <;> cases t <;> simp_all [strength, Precedence.level]

/-- Whether the constructs of a stratum can stand where operators have to bind tighter than a
strength. -/
def Fits (bound : Precedence) (stratum : Stratum) : Prop :=
  bound < stratum.strength ∨ stratum = .unary ∨ stratum = .call

theorem level_le_of_fits {bound : Precedence} {stratum : Stratum} (h : Fits bound stratum)
    (hb : bound < .call) : bound.level ≤ stratum.strength.level := by
  rcases h with hlt | rfl | rfl
  · exact Nat.le_of_lt hlt
  · exact Nat.le_of_lt_succ hb
  · exact bound.level_le_call

theorem fits_next {bound : Precedence} {stratum : Stratum} (h : Fits bound stratum) :
    Fits bound stratum.next := by
  rcases h with hlt | rfl | rfl
  · exact .inl (Nat.lt_of_lt_of_le hlt stratum.strength_le_next)
  · exact .inr (.inr rfl)
  · exact .inr (.inr rfl)

/-- A binary operator stands only where it binds tighter. -/
theorem lt_of_fits {bound : Precedence} {stratum : Stratum} {sign : Sign}
    (hs : sign ∈ stratum.operators) (h : Fits bound stratum) : bound < stratum.strength := by
  rcases h with hlt | rfl | rfl
  · exact hlt
  · simp [operators] at hs
  · simp [operators] at hs

/-- What stands to the right of an operator is in the next stratum. -/
theorem next_le_of_fits {stratum right : Stratum} {sign : Sign} (hs : sign ∈ stratum.operators)
    (h : Fits stratum.strength right) : stratum.next.strength.level ≤ right.strength.level := by
  rcases h with hlt | rfl | rfl
  · rw [level_next_of_mem hs]
    exact hlt
  · cases stratum <;> first | decide | simp [operators] at hs
  · exact stratum.next.strength.level_le_call

end Stratum

/-- A tighter stratum is part of each looser one. -/
theorem Derives.loosen {s t : Stratum} {tree : Expression} {nesting : Nat} {tokens : List Token}
    (h : Derives (.expression t tree) nesting tokens)
    (hle : s.strength.level ≤ t.strength.level) : Derives (.expression s tree) nesting tokens := by
  generalize hk : t.strength.level - s.strength.level = k
  induction k generalizing s with
  | zero =>
      obtain rfl : s = t := Stratum.strength_injective (by omega)
      exact h
  | succ k ih =>
      have hs : s ≠ .call := by
        rintro rfl
        have hcall : Stratum.call.strength.level = Precedence.call.level := rfl
        have := t.strength.level_le_call
        omega
      have hnext := Stratum.level_next hs
      exact .tighter (ih (by omega) (by omega))

theorem Derives.nesting_pos {phrase : Phrase} {nesting : Nat} {tokens : List Token}
    (h : Derives phrase nesting tokens) :
    (∃ stratum tree, phrase = .expression stratum tree) → 1 ≤ nesting := by
  induction h with
  | tighter _ ih => exact fun _ => ih ⟨_, _, rfl⟩
  | binary _ _ _ _ ih | call _ _ _ _ ih =>
      have := ih ⟨_, _, rfl⟩
      intro
      omega
  | _ => simp

end Grammar

end MonkeyFront
