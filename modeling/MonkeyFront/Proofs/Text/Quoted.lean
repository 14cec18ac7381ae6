import Mathlib.Algebra.Group.Nat.Defs
import MonkeyFront.Text.Quoted

/-!
# Quoted text can be read back

An escape tells where it ends and which character it stands for. So no two texts are quoted alike.
-/

namespace MonkeyFront.Text

/-! ## Hexadecimal digits -/

def hexDigitValue (c : Char) : Nat :=
  if c.isDigit then c.toNat - '0'.toNat else c.toNat - 'a'.toNat + 10

/-- The number that hexadecimal digits stand for. -/
def hexValue (digits : List Char) : Nat :=
  digits.foldl (fun value c => 16 * value + hexDigitValue c) 0

theorem hexDigitValue_digitChar : ∀ d < 16, hexDigitValue (Nat.digitChar d) = d := by decide

theorem length_hexDigits (width n : Nat) : (hexDigits width n).length = width := by
  induction width generalizing n with
  | zero => rfl
  | succ width ih => simp [hexDigits, ih]

theorem hexValue_hexDigits (width n : Nat) : hexValue (hexDigits width n) = n % 16 ^ width := by
  induction width generalizing n with
  | zero => simp [hexDigits, hexValue, Nat.mod_one]
  | succ width ih =>
      have hdigit := hexDigitValue_digitChar (n % 16) (Nat.mod_lt n (by decide))
      have happend (digits : List Char) (c : Char) :
          hexValue (digits ++ [c]) = 16 * hexValue digits + hexDigitValue c := by
        simp [hexValue]
      rw [hexDigits, happend, ih, hdigit, Nat.pow_succ', Nat.mod_mul]
      omega

/-! ## One escape -/

/-- The character whose code point is written in a number of hexadecimal digits, and the text after
them. -/
def readCode (width : Nat) (text : List Char) : Char × List Char :=
  (Char.ofNat (hexValue (text.take width)), text.drop width)

/-- The character that quoted text starts with, and the quoted text after it. -/
def readEscape : List Char → Option (Char × List Char)
  | [] => none
  | '\\' :: [] => none
  | '\\' :: kind :: rest =>
    if kind = 'n' then some ('\n', rest)
    else if kind = 'r' then some ('\r', rest)
    else if kind = 't' then some ('\t', rest)
    else if kind = 'x' then some (readCode 2 rest)
    else if kind = 'u' then some (readCode 4 rest)
    else if kind = 'U' then some (readCode 8 rest)
    else some (kind, rest)
  | c :: rest => some (c, rest)

theorem readCode_hexDigits {width : Nat} {c : Char} (h : c.toNat < 16 ^ width) (rest : List Char) :
    readCode width (hexDigits width c.toNat ++ rest) = (c, rest) := by
  have htake : (hexDigits width c.toNat ++ rest).take width = hexDigits width c.toNat :=
    List.take_left' (length_hexDigits width _)
  have hdrop : (hexDigits width c.toNat ++ rest).drop width = rest :=
    List.drop_left' (length_hexDigits width _)
  rw [readCode, htake, hdrop, hexValue_hexDigits, Nat.mod_eq_of_lt h, Char.ofNat_toNat]

/-- An escape is read back, whatever comes after it. -/
theorem readEscape_escape {mark : Char} (hm : mark = '\x27' ∨ mark = '\x22') (c : Char)
    (rest : List Char) : readEscape (escape mark c ++ rest) = some (c, rest) := by
  unfold escape
  split
  next h =>
    have hc : c = '\x27' ∨ c = '\x22' ∨ c = '\\' := by
      rcases h with rfl | rfl
      · exact hm.imp_right .inl
      · exact .inr (.inr rfl)
    rcases hc with rfl | rfl | rfl <;> rfl
  next h =>
    split
    next hc => rw [hc]; rfl
    split
    next hc => rw [hc]; rfl
    split
    next hc => rw [hc]; rfl
    split
    next =>
      have hne : c ≠ '\\' := fun hc => h (.inr hc)
      simp [readEscape, hne]
    split
    next hlt => exact congrArg some (readCode_hexDigits hlt rest)
    split
    next hlt => exact congrArg some (readCode_hexDigits hlt rest)
    next => exact congrArg some (readCode_hexDigits c.val.toNat_lt rest)

/-! ## Texts -/

/-- Texts are equal if they are written alike, where each character can be read back whatever comes
after it and none can be read where the writing ends. -/
theorem flatMap_append_inj {write : Char → List Char}
    {read : List Char → Option (Char × List Char)}
    (hread : ∀ c rest, read (write c ++ rest) = some (c, rest)) {text other ending last : List Char}
    (hending : read ending = none) (hlast : read last = none)
    (h : text.flatMap write ++ ending = other.flatMap write ++ last) :
    text = other ∧ ending = last := by
  induction text generalizing other with
  | nil =>
      cases other with
      | nil => exact ⟨rfl, h⟩
      | cons d more =>
          have hd := hread d (more.flatMap write ++ last)
          rw [← List.append_assoc, ← List.flatMap_cons, ← h, List.flatMap_nil, List.nil_append,
            hending] at hd
          cases hd
  | cons c rest ih =>
      have hc := hread c (rest.flatMap write ++ ending)
      rw [← List.append_assoc, ← List.flatMap_cons, h] at hc
      cases other with
      | nil =>
          rw [List.flatMap_nil, List.nil_append, hlast] at hc
          cases hc
      | cons d more =>
          rw [List.flatMap_cons, List.append_assoc, hread d] at hc
          obtain ⟨rfl, hrest⟩ : d = c ∧ _ := by simpa using hc
          obtain ⟨rfl, rfl⟩ := ih hrest.symm
          exact ⟨rfl, rfl⟩

theorem flatMap_escape_injective {mark : Char} (hm : mark = '\x27' ∨ mark = '\x22')
    {text other : List Char} (h : text.flatMap (escape mark) = other.flatMap (escape mark)) :
    text = other :=
  (flatMap_append_inj (readEscape_escape hm) rfl rfl (congrArg (· ++ []) h)).1

theorem quotationMark_cases (text : List Char) :
    quotationMark text = '\x27' ∨ quotationMark text = '\x22' := by
  unfold quotationMark
  split
  · exact .inr rfl
  · exact .inl rfl

/-- Texts that are quoted alike are the same text. -/
theorem quoted_injective {text other : String} (h : quoted text = quoted other) : text = other := by
  have hlists := String.ofList_injective h
  obtain ⟨hmark, hescapes⟩ := List.cons.inj hlists
  rw [← hmark] at hescapes
  have hinside := List.append_cancel_right hescapes
  exact String.toList_injective (flatMap_escape_injective (quotationMark_cases _) hinside)

end MonkeyFront.Text
