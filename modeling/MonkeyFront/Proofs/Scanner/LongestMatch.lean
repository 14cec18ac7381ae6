import MonkeyFront.Proofs.Scanner.Splits
import MonkeyFront.Scanner.Lexemes

/-!
# Scanning is longest match

The tokens of a text by longest match, said directly on its characters, and the scanner as a machine
that yields them. Between two lexemes the scanner is `Ready`: in text mode, with an empty queue and
no pending lexeme. Handing out a lexeme takes a ready scanner to a ready one, whatever modes it
passes through on the way.
-/

namespace MonkeyFront

/-! ## Longest match -/

/-- The characters that are signs on their own. -/
def signChars : List Char :=
  ['=', '!', ';', '(', ')', ',', '+', '-', '/', '*', '<', '>', '\x7b', '\x7d']

theorem of_mem_signChars {p : Char → Bool} (h : signChars.all p = true) {c : Char}
    (hc : c ∈ signChars) : p c = true :=
  List.all_eq_true.mp h c hc

/-- The token at the start of a text that starts with no blank, and the text after it. -/
def longestMatch : List Char → Option (Token × List Char)
  | [] => none
  | c :: rest =>
    if (c = '=' ∨ c = '!') ∧ rest.head? = some '=' then
      let sign := String.ofList [c, '=']
      some (⟨Kind.ofName sign, sign⟩, rest.tail)
    else if c ∈ signChars then
      some (⟨Kind.ofName (String.singleton c), String.singleton c⟩, rest)
    else if isLetter c then
      let word := String.ofList ((c :: rest).takeWhile isLetter)
      some (⟨Kind.ofWord word, word⟩, (c :: rest).dropWhile isLetter)
    else if isDigit c then
      if ((c :: rest).dropWhile isDigit).head?.any isLetter then
        let run := String.ofList ((c :: rest).takeWhile fun c => isLetter c || isDigit c)
        some (⟨.illegal, "bad number syntax: " ++ Text.quoted run⟩,
          (c :: rest).dropWhile fun c => isLetter c || isDigit c)
      else
        some (⟨.int, String.ofList ((c :: rest).takeWhile isDigit)⟩, (c :: rest).dropWhile isDigit)
    else some (⟨.illegal, "illegal character: " ++ Text.quoted (String.singleton c)⟩, rest)

theorem length_dropWhile_le {α : Type} (p : α → Bool) (l : List α) :
    (l.dropWhile p).length ≤ l.length :=
  (l.dropWhile_suffix p).length_le

theorem eq_nil_of_longestMatch {text : List Char} (h : longestMatch text = none) : text = [] := by
  cases text with
  | nil => rfl
  | cons c more =>
      simp only [longestMatch] at h
      split at h
      · cases h
      split at h
      · cases h
      split at h
      · cases h
      split at h
      · split at h <;> cases h
      · cases h

/-- `Match text token rest`: a token at the start of a text, as long as it can be, and the text after
it. -/
inductive Match : List Char → Token → List Char → Prop
  | sign (mark : Sign) {text rest : List Char} (ht : text = mark.chars ++ rest)
      (hs : mark.chars = ['='] ∨ mark.chars = ['!'] → rest.head? ≠ some '=') :
      Match text ⟨.sign mark, mark.spelling⟩ rest
  | word {text run rest : List Char} (ht : text = run ++ rest) (hne : run ≠ [])
      (hl : ∀ c ∈ run, isLetter c = true) (hs : ∀ c ∈ rest.head?, isLetter c = false) :
      Match text ⟨Kind.ofWord (String.ofList run), String.ofList run⟩ rest
  | number {text run rest : List Char} (ht : text = run ++ rest) (hne : run ≠ [])
      (hd : ∀ c ∈ run, isDigit c = true)
      (hs : ∀ c ∈ rest.head?, isDigit c = false ∧ isLetter c = false) :
      Match text ⟨.int, String.ofList run⟩ rest
  | badNumber {text run rest : List Char} (ht : text = run ++ rest) (hne : run ≠ []) :
      Match text ⟨.illegal, "bad number syntax: " ++ Text.quoted (String.ofList run)⟩ rest
  | illegalCharacter {c : Char} {rest : List Char} :
      Match (c :: rest) ⟨.illegal, "illegal character: " ++ Text.quoted (String.ofList [c])⟩ rest

/-- A character that is a sign on its own makes the token of a sign. -/
theorem exists_sign_of_mem {c : Char} (hc : c ∈ signChars) :
    ∃ mark : Sign, mark.chars = [c] ∧
      (⟨Kind.ofName (String.singleton c), String.singleton c⟩ : Token) =
        ⟨.sign mark, mark.spelling⟩ := by
  have hsigns : signChars.all (fun c => (Sign.ofSpelling? (String.singleton c)).isSome) = true := by
    decide
  obtain ⟨mark, hm⟩ := Option.isSome_iff_exists.mp (of_mem_signChars hsigns hc)
  have hspelling := Sign.spelling_of_ofSpelling? hm
  refine ⟨mark, ?_, ?_⟩
  · rw [Sign.spelling, String.singleton_eq_ofList] at hspelling
    exact String.ofList_injective hspelling
  · rw [← hspelling, show Kind.ofName mark.spelling = .sign mark from Kind.ofName_name (.sign mark)]

theorem takeWhile_ne_nil {α : Type} {p : α → Bool} {a : α} {l : List α} (h : p a = true) :
    (a :: l).takeWhile p ≠ [] := by
  simp [h]

theorem not_of_mem_head?_dropWhile {α : Type} {p : α → Bool} {l : List α} :
    ∀ a ∈ (l.dropWhile p).head?, p a = false := by
  intro a ha
  have := List.head?_dropWhile_not p l
  simpa [Option.mem_def.mp ha] using this

theorem match_of_longestMatch {text rest : List Char} {token : Token}
    (h : longestMatch text = some (token, rest)) : Match text token rest := by
  cases text with
  | nil => simp [longestMatch] at h
  | cons c more =>
      simp only [longestMatch] at h
      split at h
      next hpair =>
        obtain ⟨hc, hmore⟩ := hpair
        obtain ⟨last, rfl⟩ : ∃ last, more = '=' :: last := List.head?_eq_some_iff.mp hmore
        cases h
        rcases hc with rfl | rfl
        · exact .sign .equal rfl (by simp [Sign.chars])
        · exact .sign .notEqual rfl (by simp [Sign.chars])
      next hpair =>
        split at h
        next hsign =>
          obtain ⟨mark, hm, htoken⟩ := exists_sign_of_mem hsign
          rw [htoken] at h
          cases h
          exact .sign mark (by simp [hm]) fun hmark he => hpair ⟨by simpa [hm] using hmark, he⟩
        split at h
        next hl =>
          cases h
          exact .word List.takeWhile_append_dropWhile.symm (takeWhile_ne_nil hl)
            (List.all_eq_true.mp List.all_takeWhile) not_of_mem_head?_dropWhile
        split at h
        next hd =>
          split at h
          next =>
            cases h
            exact .badNumber List.takeWhile_append_dropWhile.symm (takeWhile_ne_nil (by simp [hd]))
          next hbad =>
            cases h
            refine .number List.takeWhile_append_dropWhile.symm (takeWhile_ne_nil hd)
              (List.all_eq_true.mp List.all_takeWhile) fun d hmem => ?_
            refine ⟨not_of_mem_head?_dropWhile d hmem, ?_⟩
            simpa [Option.mem_def.mp hmem] using hbad
        next =>
          cases h
          rw [String.singleton_eq_ofList]
          exact .illegalCharacter

/-- A run of a wider class can be taken in two parts. -/
theorem takeWhile_append_takeWhile {α : Type} {p q : α → Bool}
    (h : ∀ a, p a = true → q a = true) (l : List α) :
    l.takeWhile p ++ (l.dropWhile p).takeWhile q = l.takeWhile q := by
  induction l with
  | nil => rfl
  | cons a l ih =>
      by_cases ha : p a = true
      · simp [ha, h a ha, ih]
      · simp [ha]

theorem dropWhile_dropWhile {α : Type} {p q : α → Bool}
    (h : ∀ a, p a = true → q a = true) (l : List α) :
    (l.dropWhile p).dropWhile q = l.dropWhile q := by
  induction l with
  | nil => rfl
  | cons a l ih =>
      by_cases ha : p a = true
      · simp [ha, h a ha, ih]
      · simp [ha]

theorem Sign.chars_ne_nil (mark : Sign) : mark.chars ≠ [] := by
  cases mark <;> simp [chars]

/-- A token takes something off the text. -/
theorem Match.exists_taken {text rest : List Char} {token : Token} (h : Match text token rest) :
    ∃ taken, text = taken ++ rest ∧ taken ≠ [] := by
  cases h with
  | sign mark ht => exact ⟨_, ht, mark.chars_ne_nil⟩
  | word ht hne | number ht hne | badNumber ht hne => exact ⟨_, ht, hne⟩
  | @illegalCharacter c => exact ⟨[c], rfl, by simp⟩

theorem length_longestMatch_lt {text rest : List Char} {token : Token}
    (h : longestMatch text = some (token, rest)) : rest.length < text.length := by
  obtain ⟨taken, rfl, hne⟩ := (match_of_longestMatch h).exists_taken
  have := List.length_pos_iff.mpr hne
  rw [List.length_append]
  omega

/-- The tokens of a text by longest match, the end token last. -/
def munch (text : List Char) : List Token :=
  match _h : longestMatch (text.dropWhile Text.isBlank) with
  | none => [Token.eof]
  | some (token, rest) => token :: munch rest
termination_by text.length
decreasing_by exact Nat.lt_of_lt_of_le (length_longestMatch_lt _h) (length_dropWhile_le _ _)

theorem munch_of_none {text : List Char} (h : longestMatch (text.dropWhile Text.isBlank) = none) :
    munch text = [Token.eof] := by
  rw [munch]
  split <;> simp_all

theorem munch_of_some {text rest : List Char} {token : Token}
    (h : longestMatch (text.dropWhile Text.isBlank) = some (token, rest)) :
    munch text = token :: munch rest := by
  rw [munch]
  split <;> simp_all

theorem kind_ne_eof_of_longestMatch {text rest : List Char} {token : Token}
    (h : longestMatch text = some (token, rest)) : token.kind ≠ .eof := by
  cases match_of_longestMatch h with
  | @word run =>
      simp only [Kind.ofWord]
      split <;> simp
  | _ => simp

/-! ## One lexeme -/

namespace Scanner

variable {scanner : Scanner} {before text rest : List Char}

/-- The state of the scanner between two lexemes. -/
structure Ready (scanner : Scanner) (before rest : List Char) : Prop where
  mode : scanner.mode = .text
  queue : scanner.queue = []
  cursor : scanner.cursor.Splits before [] rest

/-- The state of the scanner once it has handed out the end token. -/
structure Finished (scanner : Scanner) (before : List Char) : Prop where
  mode : scanner.mode = .done
  queue : scanner.queue = []
  cursor : scanner.cursor.Splits before [] []

theorem ready_ofSource (source : String) : (ofSource source).Ready [] source.toList :=
  ⟨rfl, rfl, Cursor.splits_ofSource source⟩

theorem next_of_scan {after : Scanner} {mode : Mode} (hm : scanner.mode ≠ .done)
    (hq : scanner.queue = []) (h : scanner.scan = (.ok mode, after)) :
    scanner.next = next { after with mode } := by
  rw [next]
  split
  next heq => rw [hq] at heq; cases heq
  next =>
    rw [dif_neg hm]
    split
    next mode' after' heq => rw [h] at heq; cases heq; rfl
    next heq => rw [h] at heq; cases heq

theorem next_of_queue {lexeme : Lexeme} {queue : List Lexeme}
    (h : scanner.queue = lexeme :: queue) :
    scanner.next = (.ok lexeme, { scanner with queue }) := by
  rw [next]
  split
  next heq => rw [h] at heq; cases heq; rfl
  next heq => rw [h] at heq; cases heq

theorem next_of_done (hm : scanner.mode = .done) (hq : scanner.queue = []) :
    scanner.next = (.ok (Lexeme.eof scanner.cursor.position), scanner) := by
  rw [next]
  split
  next heq => rw [hq] at heq; cases heq
  next => rw [dif_pos hm]

/-- The scanner hands out a token that stands for the text `taken`, and is ready behind it. -/
def HandsOut (scanner : Scanner) (token : Token) (before taken rest : List Char) : Prop :=
  ∃ after, scanner.next =
      (.ok ⟨token, before.length, before.length + taken.length⟩, after) ∧
    after.Ready (before ++ taken) rest

theorem handsOut_of_enqueue {cursor : Cursor} {token : Token} {pending : List Char}
    (hm : scanner.mode ≠ .done) (hq : scanner.queue = [])
    (hs : scanner.scan = afterEnqueue { scanner with cursor }
      (enqueue token { scanner with cursor }))
    (hc : cursor.Splits before pending rest) : scanner.HandsOut token before pending rest := by
  rw [afterEnqueue_enqueue_of_nil token (show Scanner.queue { scanner with cursor } = [] from hq)]
    at hs
  refine ⟨⟨cursor.ignore, .text, []⟩, ?_, rfl, rfl, hc.ignore⟩
  rw [next_of_scan hm hq hs, next_of_queue rfl, hc.start, hc.position]

theorem handsOut_word (hm : scanner.mode = .word) (hq : scanner.queue = [])
    (hc : scanner.cursor.Splits before [] text) :
    scanner.HandsOut ⟨Kind.ofWord (String.ofList (text.takeWhile isLetter)),
      String.ofList (text.takeWhile isLetter)⟩ before (text.takeWhile isLetter)
      (text.dropWhile isLetter) := by
  have hrun := hc.acceptRun isLetter
  rw [List.nil_append] at hrun
  refine handsOut_of_enqueue (by simp [hm]) hq ?_ hrun
  simp only [scan, hm, scanWord, emit, hrun.lexeme_eq]

theorem handsOut_number (hm : scanner.mode = .number) (hq : scanner.queue = [])
    (hc : scanner.cursor.Splits before [] text)
    (hl : (text.dropWhile isDigit).head?.any isLetter = false) :
    scanner.HandsOut ⟨.int, String.ofList (text.takeWhile isDigit)⟩ before
      (text.takeWhile isDigit) (text.dropWhile isDigit) := by
  have hrun := hc.acceptRun isDigit
  rw [List.nil_append] at hrun
  refine handsOut_of_enqueue (by simp [hm]) hq ?_ hrun.peek
  simp only [scan, hm, scanNumber, hrun.peek_fst, hl, emit, hrun.peek.lexeme_eq]
  rfl

/-- The run of letters and digits goes on from where the digits ended, so it is read in two runs. -/
theorem handsOut_badNumber (hm : scanner.mode = .number) (hq : scanner.queue = [])
    (hc : scanner.cursor.Splits before [] text)
    (hl : (text.dropWhile isDigit).head?.any isLetter = true) :
    scanner.HandsOut
      ⟨.illegal, badNumber (String.ofList (text.takeWhile fun c => isLetter c || isDigit c))⟩
      before (text.takeWhile fun c => isLetter c || isDigit c)
      (text.dropWhile fun c => isLetter c || isDigit c) := by
  have hdigits := hc.acceptRun isDigit
  rw [List.nil_append] at hdigits
  have hrun := hdigits.peek.acceptRun fun c => isLetter c || isDigit c
  have hall : ∀ c, isDigit c = true → (isLetter c || isDigit c) = true := by
    intro c hd
    simp [hd]
  rw [takeWhile_append_takeWhile hall, dropWhile_dropWhile hall] at hrun
  refine handsOut_of_enqueue (by simp [hm]) hq ?_ hrun
  simp only [scan, hm, scanNumber, hdigits.peek_fst, hl, reject, hrun.lexeme_eq]
  rfl

/-! ## Text mode -/

theorem isLone_iff {c : Char} :
    Sign.isLone c = true ↔ c ∈ signChars ∧ (c == '!' || c == '=') = false := by
  simp only [Sign.isLone, Sign.lone, Sign.chars, signChars, List.any_cons, List.any_nil]
  constructor
  · intro h
    simp at h
    rcases h with h | h | h | h | h | h | h | h | h | h | h | h <;> subst h <;> decide
  · rintro ⟨hmem, hne⟩
    simp at hmem hne ⊢
    grind

theorem HandsOut.of_scan {after : Scanner} {mode : Mode} {token : Token} {taken : List Char}
    (hm : scanner.mode ≠ .done) (hq : scanner.queue = []) (hs : scanner.scan = (.ok mode, after))
    (h : HandsOut { after with mode } token before taken rest) :
    scanner.HandsOut token before taken rest := by
  obtain ⟨last, hnext, hready⟩ := h
  exact ⟨last, (next_of_scan hm hq hs).trans hnext, hready⟩

theorem handsOut_pair {c : Char} {more : List Char} (hm : scanner.mode = .text)
    (hq : scanner.queue = [])
    (hc : scanner.cursor.skipBlanks.Splits before [] (c :: '=' :: more))
    (hfirst : (c == '!' || c == '=') = true) :
    scanner.HandsOut ⟨Kind.ofName (String.ofList [c, '=']), String.ofList [c, '=']⟩ before
      [c, '='] more := by
  have hone := hc.accept (fun c => c == '!' || c == '=') hfirst
  have htwo := hone.accept (· == '=') rfl
  refine handsOut_of_enqueue (by simp [hm]) hq ?_ htwo
  simp only [scan, hm, scanText, hc.accept_fst, List.head?_cons, Option.any_some, hfirst, if_true,
    emit]
  rw [htwo.lexeme_eq]
  rfl

theorem handsOut_sign {c : Char} {more : List Char} (hm : scanner.mode = .text)
    (hq : scanner.queue = []) (hc : scanner.cursor.skipBlanks.Splits before [] (c :: more))
    (hsign : c ∈ signChars) (hpair : ¬ ((c = '=' ∨ c = '!') ∧ more.head? = some '=')) :
    scanner.HandsOut ⟨Kind.ofName (String.singleton c), String.singleton c⟩ before [c] more := by
  have hfst := hc.accept_fst fun c => c == '!' || c == '='
  simp only [List.head?_cons, Option.any_some] at hfst
  cases hfirst : (c == '!' || c == '=') with
  | true =>
      have hor : c = '=' ∨ c = '!' := by simpa [or_comm] using hfirst
      have hno : more.head?.any (· == '=') = false := by
        cases more with
        | nil => rfl
        | cons d last => simpa using fun hd => hpair ⟨hor, by simp [hd]⟩
      have hone := hc.accept (fun c => c == '!' || c == '=') hfirst
      have htwo := hone.accept_refused (· == '=') hno
      refine handsOut_of_enqueue (by simp [hm]) hq ?_ htwo
      simp only [scan, hm, scanText, hfst, hfirst, if_true, emit]
      rw [htwo.lexeme_eq]
      rfl
  | false =>
      have hlone := isLone_iff.mpr ⟨hsign, hfirst⟩
      have hone := hc.accept_refused (fun c => c == '!' || c == '=') (by simpa using hfirst)
      have htwo := hone.accept Sign.isLone hlone
      refine handsOut_of_enqueue (by simp [hm]) hq ?_ htwo
      simp only [scan, hm, scanText, hfst, hfirst, hone.accept_fst, List.head?_cons,
        Option.any_some, hlone, if_true, emit]
      rw [htwo.lexeme_eq]
      rfl

/-- What text mode does before a character that is no sign: it looks at it and goes on by its
class. -/
theorem scan_of_not_sign {c : Char} {more : List Char} (hm : scanner.mode = .text)
    (hc : scanner.cursor.skipBlanks.Splits before [] (c :: more)) (hsign : c ∉ signChars) :
    ∃ cursor, cursor.Splits before [] (c :: more) ∧
      scanner.scan =
        if isLetter c then (.ok .word, { scanner with cursor })
        else if isDigit c then (.ok .number, { scanner with cursor })
        else afterEnqueue { scanner with cursor := cursor.next.2 }
          (reject (illegalCharacter c) { scanner with cursor := cursor.next.2 }) := by
  have hfirst : (c == '!' || c == '=') = false := by
    rw [Bool.eq_false_iff]
    intro h
    refine hsign ?_
    have : c = '!' ∨ c = '=' := by simpa using h
    rcases this with rfl | rfl <;> decide
  have hlone : Sign.isLone c = false := by
    rw [Bool.eq_false_iff]
    exact fun h => hsign (isLone_iff.mp h).1
  have hone := hc.accept_refused (fun c => c == '!' || c == '=') (by simpa using hfirst)
  have htwo := hone.accept_refused Sign.isLone (by simpa using hlone)
  refine ⟨_, htwo.peek, ?_⟩
  simp only [scan, hm, scanText, hc.accept_fst, List.head?_cons, Option.any_some, hfirst,
    hone.accept_fst, hlone, htwo.peek_fst]
  rfl

/-- A sign or an illegal character is read at once. A letter leads to a word and a digit to a
number, with nothing read yet. -/
theorem handsOut_text (h : scanner.Ready before text) {c : Char} {more : List Char}
    (htext : text.dropWhile Text.isBlank = c :: more) {token : Token}
    (hmatch : longestMatch (c :: more) = some (token, rest)) :
    ∃ taken, c :: more = taken ++ rest ∧
      scanner.HandsOut token (before ++ text.takeWhile Text.isBlank) taken rest := by
  have hstart := h.cursor.skipBlanks
  rw [htext] at hstart
  generalize before ++ text.takeWhile Text.isBlank = behind at hstart ⊢
  have hm : scanner.mode ≠ .done := by simp [h.mode]
  simp only [longestMatch] at hmatch
  split at hmatch
  next hpair =>
    cases hmatch
    cases more with
    | nil => simp at hpair
    | cons d last =>
        obtain rfl : d = '=' := by simpa using hpair.2
        exact ⟨_, rfl, handsOut_pair h.mode h.queue hstart (by simpa [or_comm] using hpair.1)⟩
  next hpair =>
    split at hmatch
    next hsign =>
      cases hmatch
      exact ⟨_, rfl, handsOut_sign h.mode h.queue hstart hsign hpair⟩
    next hsign =>
      obtain ⟨cursor, hc, hs⟩ := scan_of_not_sign h.mode hstart hsign
      split at hmatch
      next hl =>
        cases hmatch
        rw [if_pos hl] at hs
        exact ⟨_, List.takeWhile_append_dropWhile.symm,
          .of_scan hm h.queue hs (handsOut_word rfl h.queue hc)⟩
      next hl =>
        rw [if_neg hl] at hs
        split at hmatch
        next hd =>
          rw [if_pos hd] at hs
          split at hmatch
          next hbad =>
            cases hmatch
            exact ⟨_, List.takeWhile_append_dropWhile.symm,
              .of_scan hm h.queue hs (handsOut_badNumber rfl h.queue hc hbad)⟩
          next hbad =>
            cases hmatch
            exact ⟨_, List.takeWhile_append_dropWhile.symm,
              .of_scan hm h.queue hs (handsOut_number rfl h.queue hc (by simpa using hbad))⟩
        next hd =>
          rw [if_neg hd] at hs
          cases hmatch
          exact ⟨_, rfl, handsOut_of_enqueue hm h.queue hs hc.next⟩

/-- A ready scanner hands out the token that starts after the blanks. -/
theorem Ready.handsOut (h : scanner.Ready before text) {token : Token}
    (hmatch : longestMatch (text.dropWhile Text.isBlank) = some (token, rest)) :
    ∃ taken, text.dropWhile Text.isBlank = taken ++ rest ∧
      scanner.HandsOut token (before ++ text.takeWhile Text.isBlank) taken rest := by
  cases htext : text.dropWhile Text.isBlank with
  | nil => simp [htext, longestMatch] at hmatch
  | cons c more => exact handsOut_text h htext (htext ▸ hmatch)

theorem next_at_end (h : scanner.Ready before text) (hend : text.dropWhile Text.isBlank = []) :
    ∃ after, scanner.next = (.ok (Lexeme.eof (before.length + text.length)), after) ∧
      after.Finished (before ++ text) := by
  have hblank : text.takeWhile Text.isBlank = text := by
    simpa [hend] using List.takeWhile_append_dropWhile (p := Text.isBlank) (l := text)
  have hstart := h.cursor.skipBlanks
  rw [hend, hblank] at hstart
  have hone := hstart.accept_refused (fun c => c == '!' || c == '=') rfl
  have htwo := hone.accept_refused Sign.isLone rfl
  have hs : ∃ cursor, cursor.Splits (before ++ text) [] [] ∧
      scanner.scan = (.ok .done, { scanner with cursor }) := by
    refine ⟨_, htwo.peek, ?_⟩
    simp only [scan, h.mode, scanText, hstart.accept_fst, hone.accept_fst, htwo.peek_fst]
    rfl
  obtain ⟨cursor, hc, hs⟩ := hs
  refine ⟨⟨cursor, .done, []⟩, ?_, rfl, rfl, hc⟩
  rw [next_of_scan (by simp [h.mode]) h.queue hs, h.queue, next_of_done rfl rfl, hc.position]
  simp

/-! ## All lexemes -/

theorem drain_of_eof {after : Scanner} {lexeme : Lexeme} (h : scanner.next = (.ok lexeme, after))
    (hk : lexeme.kind = .eof) : scanner.drain = ⟨[], none, after⟩ := by
  rw [drain]
  split
  next heq => rw [h] at heq; cases heq; rw [dif_pos hk]
  next heq => rw [h] at heq; cases heq

theorem drain_of_next {after : Scanner} {lexeme : Lexeme} (h : scanner.next = (.ok lexeme, after))
    (hk : lexeme.kind ≠ .eof) : scanner.drain = after.drain.cons lexeme := by
  rw [drain]
  split
  next heq => rw [h] at heq; cases heq; rw [dif_neg hk]
  next heq => rw [h] at heq; cases heq

/-- The end token is dropped, and it is the only one. -/
theorem kind_ne_eof_of_mem_drain (scanner : Scanner) :
    ∀ lexeme ∈ scanner.drain.lexemes, lexeme.kind ≠ .eof := by
  fun_induction drain scanner with
  | case1 | case3 => simp
  | case2 scanner lexeme after hn hk ih => simpa [Haul.cons, hk] using ih

theorem map_token_drain (h : scanner.Ready before text) :
    scanner.drain.lexemes.map (·.token) ++ [Token.eof] = munch text := by
  fun_induction munch text generalizing scanner before with
  | case1 text hmatch =>
      obtain ⟨after, hnext, -⟩ := next_at_end h (eq_nil_of_longestMatch hmatch)
      rw [drain_of_eof hnext rfl]
      rfl
  | case2 text token rest hmatch ih =>
      obtain ⟨taken, -, after, hnext, hready⟩ := h.handsOut hmatch
      rw [drain_of_next hnext (kind_ne_eof_of_longestMatch hmatch)]
      simpa [Haul.cons] using ih hready

/-- A ready scanner comes to the end of the source, and no fault stops it. -/
theorem fault_drain (h : scanner.Ready before text) : scanner.drain.fault = none := by
  fun_induction munch text generalizing scanner before with
  | case1 text hmatch =>
      obtain ⟨after, hnext, -⟩ := next_at_end h (eq_nil_of_longestMatch hmatch)
      rw [drain_of_eof hnext rfl]
  | case2 text token rest hmatch ih =>
      obtain ⟨taken, -, after, hnext, hready⟩ := h.handsOut hmatch
      rw [drain_of_next hnext (kind_ne_eof_of_longestMatch hmatch)]
      exact ih hready

end Scanner

theorem munch_toList (source : String) : munch source.toList = tokenize source :=
  (Scanner.map_token_drain (Scanner.ready_ofSource source)).symm

/-- The state machine yields the tokens that longest match yields. -/
theorem tokenize_eq_munch (source : String) : tokenize source = munch source.toList :=
  Scanner.map_token_drain (Scanner.ready_ofSource source)

end MonkeyFront
