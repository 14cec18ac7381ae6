import MonkeyFront.Cursor

/-!
# The cursor as a split of its source

A cursor cuts the source into what lies behind, the pending lexeme and what is left to read. Each
operation moves characters from one part to the next. The step back after a look needs no account
of the read before it: every look here is a read taken back at once.
-/

namespace MonkeyFront.Cursor

/-- The source of the cursor is `before`, then the pending lexeme, then what is left to read. -/
structure Splits (cursor : Cursor) (before pending rest : List Char) : Prop where
  source : cursor.source.toList = before ++ pending ++ rest
  start : cursor.start = before.length
  position : cursor.position = before.length + pending.length

theorem splits_ofSource (text : String) : (ofSource text).Splits [] [] text.toList :=
  ⟨by simp [ofSource], rfl, rfl⟩

variable {cursor : Cursor} {before pending rest : List Char}

namespace Splits

theorem rest_eq (h : cursor.Splits before pending rest) : cursor.rest = rest := by
  rw [Cursor.rest, h.source, h.position]
  simp

theorem lexeme_eq (h : cursor.Splits before pending rest) :
    cursor.lexeme = String.ofList pending := by
  rw [lexeme, Array.toList_extract, List.extract_eq_take_drop, h.source, h.start, h.position]
  simp

theorem ignore (h : cursor.Splits before pending rest) :
    cursor.ignore.Splits (before ++ pending) [] rest := by
  refine ⟨?_, ?_, ?_⟩
  · simpa [Cursor.ignore] using h.source
  · simp [Cursor.ignore, h.position]
  · simp [Cursor.ignore, h.position]

/-! ## One character -/

theorem next_fst (h : cursor.Splits before pending rest) : cursor.next.1 = rest.head? := by
  cases rest with
  | nil => rw [next_of_rest_nil h.rest_eq]; rfl
  | cons c more => rw [next_of_rest_cons h.rest_eq]; rfl

theorem next {c : Char} {more : List Char} (h : cursor.Splits before pending (c :: more)) :
    cursor.next.2.Splits before (pending ++ [c]) more := by
  rw [next_of_rest_cons h.rest_eq]
  refine ⟨?_, h.start, ?_⟩
  · simpa using h.source
  · simp [h.position, Nat.add_assoc]

/-- A read that is taken back changes none of the three parts. -/
theorem stepBack (h : cursor.Splits before pending rest) :
    cursor.next.2.stepBack.Splits before pending rest := by
  cases hr : rest with
  | nil =>
      rw [next_of_rest_nil (h.rest_eq.trans hr)]
      exact hr ▸ ⟨h.source, h.start, by simp [Cursor.stepBack, h.position]⟩
  | cons c more =>
      rw [next_of_rest_cons (h.rest_eq.trans hr)]
      exact hr ▸ ⟨h.source, h.start, by simp [Cursor.stepBack, h.position]⟩

theorem peek_fst (h : cursor.Splits before pending rest) : cursor.peek.1 = rest.head? :=
  h.next_fst

theorem peek (h : cursor.Splits before pending rest) :
    cursor.peek.2.Splits before pending rest :=
  h.stepBack

theorem accept_fst (allowed : Char → Bool) (h : cursor.Splits before pending rest) :
    (cursor.accept allowed).1 = rest.head?.any allowed := by
  rw [Cursor.accept, h.next_fst]
  split <;> simp_all

theorem accept (allowed : Char → Bool) {c : Char} {more : List Char}
    (h : cursor.Splits before pending (c :: more)) (hc : allowed c = true) :
    (cursor.accept allowed).2.Splits before (pending ++ [c]) more := by
  rw [Cursor.accept, h.next_fst, if_pos (by simpa using hc)]
  exact h.next

theorem accept_refused (allowed : Char → Bool) (h : cursor.Splits before pending rest)
    (hc : rest.head?.any allowed = false) :
    (cursor.accept allowed).2.Splits before pending rest := by
  rw [Cursor.accept, h.next_fst, if_neg (by simp [hc])]
  exact h.stepBack

/-! ## Runs -/

theorem acceptRun (allowed : Char → Bool) (h : cursor.Splits before pending rest) :
    (cursor.acceptRun allowed).Splits before (pending ++ rest.takeWhile allowed)
      (rest.dropWhile allowed) := by
  induction rest generalizing cursor pending with
  | nil =>
      rw [Cursor.acceptRun, dif_neg (by rw [h.accept_fst]; simp)]
      simpa using h.accept_refused allowed rfl
  | cons c more ih =>
      rw [Cursor.acceptRun]
      by_cases hc : allowed c = true
      · rw [dif_pos (by rw [h.accept_fst]; simpa using hc)]
        simpa [hc] using ih (h.accept allowed hc)
      · rw [dif_neg (by rw [h.accept_fst]; simpa using hc)]
        simpa [hc] using h.accept_refused allowed (by simpa using hc)

/-- Blanks go straight behind the cursor: none of them is ever pending. -/
theorem skipBlanks (h : cursor.Splits before [] rest) :
    cursor.skipBlanks.Splits (before ++ rest.takeWhile Text.isBlank) []
      (rest.dropWhile Text.isBlank) := by
  induction rest generalizing cursor before with
  | nil =>
      rw [Cursor.skipBlanks, dif_neg (by rw [h.next_fst]; simp)]
      simpa using h.stepBack
  | cons c more ih =>
      rw [Cursor.skipBlanks]
      by_cases hc : Text.isBlank c = true
      · rw [dif_pos (by rw [h.next_fst]; simpa using hc)]
        simpa [hc] using ih h.next.ignore
      · rw [dif_neg (by rw [h.next_fst]; simpa using hc)]
        simpa [hc] using h.stepBack

end Splits

end MonkeyFront.Cursor
