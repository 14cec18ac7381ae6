import Mathlib.Data.List.Basic
import MonkeyFront.Proofs.Text.Quoted
import MonkeyFront.Text.Lines

/-!
# Texts on one line

Quoted text is printable, whatever is quoted. Printable texts can be joined to lines and columns and
are found again where these are split: no line feed and no tab is printable.
-/

namespace MonkeyFront.Text

/-! ## Printable texts -/

/-- All characters of a text are printable. -/
def Printable (text : String) : Prop := ∀ c ∈ text.toList, isPrintable c = true

@[simp] theorem printable_append {text more : String} :
    Printable (text ++ more) ↔ Printable text ∧ Printable more := by
  simp [Printable, or_imp, forall_and]

/-- The printable characters of ASCII are those from the space to the tilde. -/
theorem isPrintable_of_ascii {c : Char} (hfirst : 0x20 ≤ c.toNat) (hlast : c.toNat ≤ 0x7E) :
    isPrintable c = true := by
  have htable : ∀ range ∈ unprintableRanges, range.2 < 0x20 ∨ 0x7E < range.1 := by decide +kernel
  rw [isPrintable, Bool.not_eq_true', Bool.eq_false_iff, ne_eq, Ranges.covers_iff]
  rintro ⟨range, hmem, hlow, hhigh⟩
  have := htable range hmem
  omega

/-- Fixed words are checked against the bounds of ASCII rather than against the table. -/
theorem printable_of_ascii {text : String}
    (h : text.toList.all (fun c => 0x20 ≤ c.toNat && c.toNat ≤ 0x7E) = true := by decide) :
    Printable text := by
  intro c hc
  have hbounds := List.all_eq_true.mp h c hc
  simp only [Bool.and_eq_true, decide_eq_true_eq] at hbounds
  exact isPrintable_of_ascii hbounds.1 hbounds.2

theorem ne_of_isPrintable {c : Char} (h : isPrintable c = true) :
    c ≠ '\n' ∧ c ≠ '\r' ∧ c ≠ '\t' := by
  refine ⟨?_, ?_, ?_⟩ <;> rintro rfl <;> revert h <;> decide

theorem Printable.not_mem {text : String} (h : Printable text) :
    '\n' ∉ text.toList ∧ '\t' ∉ text.toList :=
  ⟨fun hm => (ne_of_isPrintable (h _ hm)).1 rfl, fun hm => (ne_of_isPrintable (h _ hm)).2.2 rfl⟩

/-! ## Quoted texts -/

theorem isPrintable_of_mem_hexDigits {width n : Nat} {c : Char} (h : c ∈ hexDigits width n) :
    isPrintable c = true := by
  have hdigits : ∀ d < 16, 0x20 ≤ (Nat.digitChar d).toNat ∧ (Nat.digitChar d).toNat ≤ 0x7E := by
    decide
  induction width generalizing n with
  | zero => simp [hexDigits] at h
  | succ width ih =>
      rw [hexDigits, List.mem_append, List.mem_singleton] at h
      rcases h with h | rfl
      · exact ih h
      · have hdigit := hdigits _ (Nat.mod_lt n (by decide))
        exact isPrintable_of_ascii hdigit.1 hdigit.2

/-- A character is written in printable ones: those that are not are written as their code. -/
theorem isPrintable_of_mem_escape {mark c d : Char} (hm : mark = '\x27' ∨ mark = '\x22')
    (h : d ∈ escape mark c) : isPrintable d = true := by
  have hascii : ∀ e ∈ "'\x22\\nrtxuU".toList, isPrintable e = true := printable_of_ascii
  have hcode {kind : Char} {width : Nat} (hk : isPrintable kind = true)
      (hd : d ∈ '\\' :: kind :: hexDigits width c.toNat) : isPrintable d = true := by
    rcases List.mem_cons.mp hd with rfl | hd
    · exact hascii _ (by simp)
    rcases List.mem_cons.mp hd with rfl | hd
    · exact hk
    · exact isPrintable_of_mem_hexDigits hd
  unfold escape at h
  split at h
  next hc => rcases hc with rfl | rfl <;> rcases hm with rfl | rfl <;> exact hascii d (by grind)
  split at h
  · exact hascii d (by grind)
  split at h
  · exact hascii d (by grind)
  split at h
  · exact hascii d (by grind)
  split at h
  next hp =>
    rw [List.mem_singleton] at h
    rwa [h]
  split at h
  · exact hcode (hascii 'x' (by simp)) h
  split at h
  · exact hcode (hascii 'u' (by simp)) h
  · exact hcode (hascii 'U' (by simp)) h

theorem printable_quoted (text : String) : Printable (quoted text) := by
  have hmark : isPrintable (quotationMark text.toList) = true := by
    rcases quotationMark_cases text.toList with h | h <;> rw [h] <;>
      exact isPrintable_of_ascii (by decide) (by decide)
  intro c hc
  simp only [quoted, String.toList_ofList, List.cons_append, List.mem_cons, List.mem_append,
    List.mem_flatMap, List.not_mem_nil, or_false] at hc
  rcases hc with rfl | ⟨d, -, hc⟩ | rfl
  · exact hmark
  · exact isPrintable_of_mem_escape (quotationMark_cases _) hc
  · exact hmark

/-! ## Lines -/

theorem splitLines_eq_splitOn (text : List Char) : splitLines text = text.splitOn '\n' := by
  induction text with
  | nil => simp [splitLines]
  | cons c others ih =>
      have hne := List.splitOn_ne_nil '\n' others
      rw [splitLines, ih, List.splitOn_cons_eq_if_modifyHead]
      cases hpieces : others.splitOn '\n' with
      | nil => exact absurd hpieces hne
      | cons first more => by_cases hc : c = '\n' <;> simp [hc]

theorem splitLines_intercalate {lines : List (List Char)} (hne : lines ≠ [])
    (h : ∀ line ∈ lines, '\n' ∉ line) : splitLines (['\n'].intercalate lines) = lines := by
  rw [splitLines_eq_splitOn]
  exact List.splitOn_intercalate _ h hne

theorem toList_rows_cons (text : String) (others : List String) :
    (rows (text :: others)).toList = text.toList ++ '\n' :: (rows others).toList := by
  simp [rows]

theorem splitLines_rows {texts : List String} (h : ∀ text ∈ texts, '\n' ∉ text.toList) :
    splitLines (rows texts).toList = texts.map String.toList ++ [[]] := by
  rw [splitLines_eq_splitOn]
  induction texts with
  | nil => rfl
  | cons text others ih =>
      have hfirst := h text List.mem_cons_self
      have hrest := ih fun other hm => h other (List.mem_cons_of_mem _ hm)
      rw [toList_rows_cons, List.splitOn_append_cons_self_of_not_mem hfirst, hrest]
      rfl

/-- Texts without line feeds are the lines of their rows. -/
theorem inputLines_rows {texts : List String} (h : ∀ text ∈ texts, '\n' ∉ text.toList) :
    inputLines (rows texts) = texts := by
  simp [inputLines, splitLines_rows h, Function.comp_def]

theorem rows_append (texts more : List String) :
    rows (texts ++ more) = rows texts ++ rows more := by
  simp [rows]

/-! ## Parts of a line -/

/-- What stands in a line before its first tab, and what stands behind it. -/
def splitAtTab (line : List Char) : String × String :=
  (String.ofList (line.takeWhile (· != '\t')), String.ofList (line.dropWhile (· != '\t')).tail)

theorem splitAtTab_append {first : List Char} (h : '\t' ∉ first) (second : List Char) :
    splitAtTab (first ++ '\t' :: second) = (String.ofList first, String.ofList second) := by
  have hfirst : ∀ c ∈ first, (c != '\t') = true := by
    intro c hc
    rw [bne_iff_ne]
    rintro rfl
    exact h hc
  rw [splitAtTab, List.takeWhile_append_of_pos hfirst, List.dropWhile_append_of_pos hfirst]
  simp

/-- What follows in a text that starts with another one. -/
def after? (start text : String) : Option String :=
  (text.toList.dropPrefix? start.toList).map String.ofList

theorem after?_append (start text : String) : after? start (start ++ text) = some text := by
  have h : (start ++ text).toList.dropPrefix? start.toList = some text.toList :=
    List.dropPrefix?_eq_some_iff.mpr ⟨start.toList, String.toList_append, beq_self_eq_true _⟩
  rw [after?, h, Option.map_some, String.ofList_toList]

theorem after?_eq_none {start text : String} (h : ¬start.toList <+: text.toList) :
    after? start text = none := by
  rw [after?, Option.map_eq_none_iff]
  cases hd : text.toList.dropPrefix? start.toList with
  | none => rfl
  | some rest =>
      obtain ⟨first, ht, hfirst⟩ := List.dropPrefix?_eq_some_iff.mp hd
      rw [beq_iff_eq] at hfirst
      exact absurd ⟨rest, by rw [ht, hfirst]⟩ h

end MonkeyFront.Text
