import MonkeyFront.Scanner.Basic

/-!
# Lexemes of a source

Handing out lexemes one at a time runs steps until one waits. Every lexeme before the end takes
something off the scanner's `load`, so a source has finitely many.
-/

namespace MonkeyFront.Scanner

/-- A bound on the steps until a lexeme waits or the source has been read. -/
def stepsLeft (scanner : Scanner) : Nat :=
  match scanner.queue, scanner.mode with
  | [], .text => 2
  | [], .word => 1
  | [], .number => 1
  | _, _ => 0

/-- Whether a step may make a lexeme of no characters: a word without a letter, or a number without
a digit. -/
def mayBeEmpty (scanner : Scanner) : Bool :=
  match scanner.mode with
  | .word => !scanner.cursor.peek.1.any isLetter
  | .number => !scanner.cursor.peek.1.any isDigit
  | _ => false

/-- A bound on the lexemes to come. -/
def load (scanner : Scanner) : Nat :=
  2 * scanner.cursor.left + scanner.queue.length + (if scanner.mayBeEmpty then 1 else 0)

/-! ## One step -/

theorem afterEnqueue_enqueue_of_nil (token : Token) {scanner : Scanner} (h : scanner.queue = []) :
    afterEnqueue scanner (scanner.enqueue token) =
      (.ok .text, { scanner with
        cursor := scanner.cursor.ignore
        queue := [⟨token, scanner.cursor.start, scanner.cursor.position⟩] }) := by
  simp [enqueue, h, capacity, afterEnqueue]

/-- What a step from an empty queue comes to: a lexeme of at least `taken` characters, or a mode in
which more is to come. -/
inductive Progress (before : Scanner) : StepResult → Prop
  | lexeme (lexeme : Lexeme) (cursor : Cursor)
      (load_le : 2 * cursor.left + 1 ≤ before.load) :
      Progress before (.ok .text, ⟨cursor, before.mode, [lexeme]⟩)
  | look (mode : Mode) (cursor : Cursor) (from_text : before.mode = .text) (ne_text : mode ≠ .text)
      (load_le : load ⟨cursor, mode, []⟩ ≤ before.load) :
      Progress before (.ok mode, ⟨cursor, before.mode, []⟩)

theorem progress_enqueue {before : Scanner} {cursor : Cursor} (token : Token)
    (h : before.queue = []) (load_le : 2 * cursor.left + 1 ≤ before.load) :
    Progress before (afterEnqueue { before with cursor }
      (enqueue token { before with cursor })) := by
  have hq : ({ before with cursor } : Scanner).queue = [] := h
  rw [afterEnqueue_enqueue_of_nil token hq]
  exact .lexeme _ _ load_le

theorem load_of_text {scanner : Scanner} (hm : scanner.mode = .text) (hq : scanner.queue = []) :
    scanner.load = 2 * scanner.cursor.left := by
  simp [load, hq, mayBeEmpty, hm]

theorem progress_scanText {scanner : Scanner} (hm : scanner.mode = .text)
    (hq : scanner.queue = []) : Progress scanner scanner.scanText := by
  have hload := load_of_text hm hq
  have hskip := scanner.cursor.left_skipBlanks_le
  unfold scanText
  simp only
  split
  next h =>
    have h1 := Cursor.left_accept_lt h
    have h2 := Cursor.left_accept_le (· == '=')
      (scanner.cursor.skipBlanks.accept fun c => c == '!' || c == '=').2
    exact progress_enqueue _ hq (by omega)
  next =>
    have h1 := Cursor.left_accept_le (fun c => c == '!' || c == '=') scanner.cursor.skipBlanks
    split
    next h =>
      have h2 := Cursor.left_accept_lt h
      exact progress_enqueue _ hq (by omega)
    next =>
      have h2 := Cursor.left_accept_le Sign.isLone
        (scanner.cursor.skipBlanks.accept fun c => c == '!' || c == '=').2
      generalize ((scanner.cursor.skipBlanks.accept fun c => c == '!' || c == '=').2.accept
        Sign.isLone).2 = cursor at h2 ⊢
      have h3 := cursor.left_peek
      have hpeek := cursor.peek_peek
      split
      next =>
        have := @Progress.look scanner .done cursor.peek.2 hm (by simp)
          (by simp [load, mayBeEmpty]; omega)
        simpa [hq] using this
      next c hc =>
        split
        next hl =>
          have := @Progress.look scanner .word cursor.peek.2 hm (by simp)
            (by simp [load, mayBeEmpty, hpeek, hc, hl]; omega)
          simpa [hq] using this
        next =>
          split
          next hd =>
            have := @Progress.look scanner .number cursor.peek.2 hm (by simp)
              (by simp [load, mayBeEmpty, hpeek, hc, hd]; omega)
            simpa [hq] using this
          next =>
            have hnext : cursor.peek.2.next.1 = some c := by
              change cursor.peek.2.peek.1 = some c
              rw [hpeek, hc]
            have h4 := @Cursor.left_next_of_any cursor.peek.2 (fun _ => true)
              (by simp [hnext])
            exact progress_enqueue _ hq (by omega)

theorem progress_scanWord {scanner : Scanner} (hm : scanner.mode = .word)
    (hq : scanner.queue = []) : Progress scanner scanner.scanWord := by
  have hle := Cursor.left_acceptRun_le isLetter scanner.cursor
  refine progress_enqueue _ hq ?_
  cases hl : scanner.cursor.peek.1.any isLetter with
  | true =>
    have := Cursor.left_acceptRun_lt hl
    simp only [load, hq]
    omega
  | false =>
    simp [load, hq, mayBeEmpty, hm, hl]
    omega

theorem progress_scanNumber {scanner : Scanner} (hm : scanner.mode = .number)
    (hq : scanner.queue = []) : Progress scanner scanner.scanNumber := by
  have hle := Cursor.left_acceptRun_le isDigit scanner.cursor
  have hpeek := (scanner.cursor.acceptRun isDigit).left_peek
  have hmore := Cursor.left_acceptRun_le (fun c => isLetter c || isDigit c)
    (scanner.cursor.acceptRun isDigit).peek.2
  have hload : 2 * (scanner.cursor.acceptRun isDigit).left + 1 ≤ scanner.load := by
    cases hd : scanner.cursor.peek.1.any isDigit with
    | true =>
      have := Cursor.left_acceptRun_lt hd
      simp only [load, hq]
      omega
    | false =>
      simp [load, hq, mayBeEmpty, hm, hd]
      omega
  unfold scanNumber
  simp only
  split <;> exact progress_enqueue _ hq (by omega)

theorem progress_scan {scanner : Scanner} (hm : scanner.mode ≠ .done) (hq : scanner.queue = []) :
    Progress scanner scanner.scan := by
  unfold scan
  cases h : scanner.mode with
  | text => exact progress_scanText h hq
  | word => exact progress_scanWord h hq
  | number => exact progress_scanNumber h hq
  | done => exact absurd h hm

theorem stepsLeft_scan_lt {scanner after : Scanner} {mode : Mode} (hm : scanner.mode ≠ .done)
    (hq : scanner.queue = []) (h : scanner.scan = (.ok mode, after)) :
    stepsLeft { after with mode } < scanner.stepsLeft := by
  have hp := h ▸ progress_scan hm hq
  cases hp with
  | lexeme =>
    unfold stepsLeft
    rw [hq]
    cases hs : scanner.mode <;> simp_all
  | look _ _ from_text ne_text =>
    unfold stepsLeft
    rw [hq, from_text]
    cases mode <;> simp_all

theorem load_scan_le {scanner after : Scanner} {mode : Mode} (hm : scanner.mode ≠ .done)
    (hq : scanner.queue = []) (h : scanner.scan = (.ok mode, after)) :
    load { after with mode } ≤ scanner.load := by
  have hp := h ▸ progress_scan hm hq
  cases hp with
  | lexeme _ cursor load_le => simpa [load, mayBeEmpty] using load_le
  | look _ _ _ _ load_le => exact load_le

/-! ## One lexeme -/

/-- Hands out the next lexeme: one that waits, or else the first that the steps from here make. At
the end of the source there is no more than the end token. -/
def next (scanner : Scanner) : Except Fault Lexeme × Scanner :=
  match _hq : scanner.queue with
  | lexeme :: queue => (.ok lexeme, { scanner with queue })
  | [] =>
    if _hm : scanner.mode = .done then (.ok (Lexeme.eof scanner.cursor.position), scanner)
    else
      match _h : scanner.scan with
      | (.ok mode, after) => next { after with mode }
      | (.error fault, after) => (.error fault, after)
termination_by scanner.stepsLeft
decreasing_by exact stepsLeft_scan_lt _hm _hq _h

theorem load_next_lt {scanner after : Scanner} {lexeme : Lexeme}
    (h : scanner.next = (.ok lexeme, after)) (hk : lexeme.kind ≠ .eof) :
    after.load < scanner.load := by
  fun_induction next scanner with
  | case1 scanner first queue hq =>
    cases h
    have : ({ scanner with queue } : Scanner).mayBeEmpty = scanner.mayBeEmpty := rfl
    simp only [load, hq, this, List.length_cons]
    omega
  | case2 scanner hq hm =>
    cases h
    exact absurd rfl hk
  | case3 scanner hq hm mode middle hs ih =>
    exact Nat.lt_of_lt_of_le (ih h) (load_scan_le hm hq hs)
  | case4 scanner hq hm fault middle hs => cases h

/-! ## All lexemes -/

/-- What handing out lexemes in a row comes to: the lexemes before the end token, what stopped it
short of that, and the scanner after it. -/
structure Haul where
  lexemes : List Lexeme
  fault : Option Fault
  scanner : Scanner

/-- Puts a lexeme before those of a haul. -/
def Haul.cons (lexeme : Lexeme) (haul : Haul) : Haul :=
  { haul with lexemes := lexeme :: haul.lexemes }

/-- Hands out lexemes up to the end token, which is taken and dropped. -/
def drain (scanner : Scanner) : Haul :=
  match _h : scanner.next with
  | (.ok lexeme, after) =>
    if _hk : lexeme.kind = .eof then ⟨[], none, after⟩ else (drain after).cons lexeme
  | (.error fault, after) => ⟨[], some fault, after⟩
termination_by scanner.load
decreasing_by exact load_next_lt _h _hk

/-- Hands out at most a number of lexemes, and takes none beyond it. -/
def take : Nat → Scanner → Haul
  | 0, scanner => ⟨[], none, scanner⟩
  | count + 1, scanner =>
    match scanner.next with
    | (.ok lexeme, after) =>
      if lexeme.kind = .eof then ⟨[], none, after⟩ else (take count after).cons lexeme
    | (.error fault, after) => ⟨[], some fault, after⟩

end MonkeyFront.Scanner

namespace MonkeyFront

/-- The lexemes of a source, without the end token. -/
def lexemesOf (source : String) : List Lexeme := (Scanner.ofSource source).drain.lexemes

/-- The tokens of a source, the end token last. -/
def tokenize (source : String) : List Token :=
  (lexemesOf source).map (·.token) ++ [Token.eof]

end MonkeyFront
