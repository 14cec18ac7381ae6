import Mathlib.Data.List.Basic
import Mathlib.Data.List.TakeWhile
import MonkeyFront.Proofs.Scanner.Spelling

/-!
# Scanning is local

A character that can be no later part of a token ends the token before it, whatever comes next. So
a text is scanned piece by piece between such characters.
-/

namespace MonkeyFront

/-- A character that is not read together with what is before it. -/
structure Delimits (c : Char) : Prop where
  not_letter : isLetter c = false
  not_digit : isDigit c = false
  not_equals : c ≠ '='

namespace Delimits

variable {d : Char} {more : List Char}

theorem takeWhile_append {p : Char → Bool} (hp : p d = false) (text : List Char) :
    (text ++ d :: more).takeWhile p = text.takeWhile p := by
  induction text with
  | nil => simp [hp]
  | cons c text ih => cases hc : p c <;> simp [hc, ih]

theorem dropWhile_append {p : Char → Bool} (hp : p d = false) (text : List Char) :
    (text ++ d :: more).dropWhile p = text.dropWhile p ++ d :: more := by
  induction text with
  | nil => simp [hp]
  | cons c text ih => cases hc : p c <;> simp [hc, ih]

/-- A test that the delimiter fails comes out the same before it as at the end of the text. -/
theorem head?_any {p : Char → Bool} (hp : p d = false) (text : List Char) :
    (text ++ d :: more).head?.any p = text.head?.any p := by
  cases text <;> simp [hp]

theorem longestMatch_append (hd : Delimits d) {text rest : List Char} {token : Token}
    (h : longestMatch text = some (token, rest)) :
    longestMatch (text ++ d :: more) = some (token, rest ++ d :: more) := by
  cases text with
  | nil => cases h
  | cons c text =>
      have hword : (isLetter d || isDigit d) = false := by simp [hd.not_letter, hd.not_digit]
      have hpair : (text ++ d :: more).head? = some '=' ↔ text.head? = some '=' := by
        cases text <;> simp [hd.not_equals]
      rw [List.cons_append]
      simp only [longestMatch] at h ⊢
      simp only [← List.cons_append, hpair, takeWhile_append hd.not_letter,
        dropWhile_append hd.not_letter, takeWhile_append hd.not_digit,
        dropWhile_append hd.not_digit, head?_any hd.not_letter,
        takeWhile_append (p := fun c => isLetter c || isDigit c) (d := d) hword,
        dropWhile_append (p := fun c => isLetter c || isDigit c) (d := d) hword]
      split at h
      next he =>
        rw [if_pos he]
        cases text with
        | nil => simp at he
        | cons e text => cases h; rfl
      next he =>
        rw [if_neg he]
        revert h
        split
        · intro h; cases h; rfl
        split
        · intro h; cases h; rfl
        split
        · split <;> intro h <;> cases h <;> rfl
        · intro h; cases h; rfl

end Delimits

/-! ## Text that is not the last -/

theorem takeWhile_append_of_rest {α : Type} {p : α → Bool} {text : List α}
    (h : text.dropWhile p ≠ []) (more : List α) :
    (text ++ more).takeWhile p = text.takeWhile p := by
  have hlength := congrArg List.length (List.takeWhile_append_dropWhile (p := p) (l := text))
  have hpos := List.length_pos_iff.mpr h
  rw [List.length_append] at hlength
  rw [List.takeWhile_append, if_neg (by omega)]

theorem dropWhile_append_of_rest {α : Type} {p : α → Bool} {text : List α}
    (h : text.dropWhile p ≠ []) (more : List α) :
    (text ++ more).dropWhile p = text.dropWhile p ++ more := by
  rw [List.dropWhile_append, if_neg (by simpa using h)]

/-- A token with text after it is the same whatever follows that text: no token looks further than
to the character behind it. -/
theorem longestMatch_append_of_rest {text rest : List Char} {token : Token}
    (h : longestMatch text = some (token, rest)) (hne : rest ≠ []) (more : List Char) :
    longestMatch (text ++ more) = some (token, rest ++ more) := by
  cases text with
  | nil => cases h
  | cons c text =>
      rw [List.cons_append]
      simp only [longestMatch] at h ⊢
      split at h
      next hpair =>
        obtain ⟨last, rfl⟩ : ∃ last, text = '=' :: last := List.head?_eq_some_iff.mp hpair.2
        cases h
        rw [if_pos (by simpa using hpair.1)]
        rfl
      next hpair =>
        split at h
        next hsign =>
          cases h
          have hhead : (rest ++ more).head? = rest.head? := List.head?_append_of_ne_nil _ hne
          rw [hhead, if_neg hpair, if_pos hsign]
        next hsign =>
          have hpair' : ¬ ((c = '=' ∨ c = '!') ∧ (text ++ more).head? = some '=') := by
            rintro ⟨rfl | rfl, -⟩ <;> exact hsign (by decide)
          rw [if_neg hpair', if_neg hsign, ← List.cons_append]
          split at h
          next hl =>
            cases h
            rw [if_pos hl, takeWhile_append_of_rest hne, dropWhile_append_of_rest hne]
          next hl =>
            rw [if_neg hl]
            split at h
            next hd =>
              rw [if_pos hd]
              -- Either way the digits end before the text does.
              have hdigits : (c :: text).dropWhile isDigit ≠ [] := by
                intro hnil
                rw [hnil] at h
                cases h
                exact hne rfl
              rw [dropWhile_append_of_rest hdigits, List.head?_append_of_ne_nil _ hdigits]
              split at h
              next hbad =>
                cases h
                rw [if_pos hbad, takeWhile_append_of_rest hne, dropWhile_append_of_rest hne]
              next hbad =>
                cases h
                rw [if_neg hbad, takeWhile_append_of_rest hdigits]
            next hd =>
              cases h
              rw [if_neg hd]

/-! ## All tokens -/

theorem munch_ne_nil (text : List Char) : munch text ≠ [] := by
  rw [munch]
  split <;> simp

/-- A token needs text. -/
theorem ne_nil_of_longestMatch {text rest : List Char} {token : Token}
    (h : longestMatch text = some (token, rest)) : text ≠ [] := by
  rintro rfl
  cases h

/-- Blanks before a text do not change its tokens. -/
theorem munch_dropWhile_blank (text : List Char) :
    munch (text.dropWhile Text.isBlank) = munch text := by
  induction text with
  | nil => rfl
  | cons c text ih =>
      cases hc : Text.isBlank c with
      | true => rw [List.dropWhile_cons_of_pos hc, ih, munch_blank hc]
      | false => rw [List.dropWhile_cons_of_neg (by simp [hc])]

theorem munch_blanks {blanks text : List Char} (h : ∀ c ∈ blanks, Text.isBlank c = true) :
    munch (blanks ++ text) = munch text := by
  rw [← munch_dropWhile_blank, List.dropWhile_append_of_pos h, munch_dropWhile_blank]

/-- The tokens of a text before a delimiter are those of the text alone. -/
theorem munch_append_delimiter {d : Char} (hd : Delimits d) (text more : List Char) :
    munch (text ++ d :: more) = (munch text).dropLast ++ munch (d :: more) := by
  fun_induction munch text with
  | case1 text hmatch =>
      have hblank := List.dropWhile_eq_nil_iff.mp (eq_nil_of_longestMatch hmatch)
      rw [munch_blanks hblank]
      rfl
  | case2 text token rest hmatch ih =>
      have hdrop : (text ++ d :: more).dropWhile Text.isBlank =
          text.dropWhile Text.isBlank ++ d :: more :=
        dropWhile_append_of_rest (ne_nil_of_longestMatch hmatch) _
      rw [munch_of_some (hdrop ▸ hd.longestMatch_append hmatch), ih,
        List.dropLast_cons_of_ne_nil (munch_ne_nil rest), List.cons_append]

/-- A sign that is read together with nothing cuts a text into two that are scanned apart. -/
theorem munch_append_lone (mark : Sign) {d : Char} (hm : mark.chars = [d]) (hd : Delimits d)
    (hb : d ≠ '!') (text more : List Char) :
    munch (text ++ d :: more) = (munch text).dropLast ++ .ofSign mark :: munch more := by
  rw [munch_append_delimiter hd, munch_lone mark hm hd.not_equals hb]

theorem tokenize_append_lone (mark : Sign) {d : Char} (hm : mark.chars = [d]) (hd : Delimits d)
    (hb : d ≠ '!') (a b : String) :
    tokenize (a ++ mark.spelling ++ b) =
      (tokenize a).dropLast ++ .ofSign mark :: tokenize b := by
  have htext : (a ++ mark.spelling ++ b).toList = a.toList ++ d :: b.toList := by
    simp [Sign.spelling, hm]
  simp only [← munch_toList, htext]
  exact munch_append_lone mark hm hd hb _ _

/-- The tokens of a text but its last one stay when the text goes on. -/
theorem munch_prefix_append (text more : List Char) :
    (munch text).dropLast.dropLast <+: munch (text ++ more) := by
  fun_induction munch text with
  | case1 => exact List.nil_prefix
  | case2 text token rest hmatch ih =>
      cases hnext : longestMatch (rest.dropWhile Text.isBlank) with
      | none =>
          rw [munch_of_none hnext]
          exact List.nil_prefix
      | some result =>
          obtain ⟨second, others⟩ := result
          have hrest : rest ≠ [] := by
            rintro rfl
            cases hnext
          have hmunch : munch (text ++ more) = token :: munch (rest ++ more) := by
            refine munch_of_some ?_
            rw [dropWhile_append_of_rest (ne_nil_of_longestMatch hmatch)]
            exact longestMatch_append_of_rest hmatch hrest more
          rw [munch_of_some hnext] at ih ⊢
          rw [hmunch, List.dropLast_cons_of_ne_nil (by simp), List.dropLast_cons_of_ne_nil]
          · exact List.prefix_cons_inj token |>.mpr ih
          · simp [List.dropLast_cons_of_ne_nil (munch_ne_nil others)]

end MonkeyFront
