import MonkeyFront.Proofs.Scanner.LongestMatch

/-!
# Tokens and their spelling

The tokens that scanning can yield, illegal ones and the end token apart, and what their texts scan
to. A token's text is scanned as the token unless the character after it belongs to it.
-/

namespace MonkeyFront

/-- A token that stands in a source as its literal. -/
inductive Token.Valid : Token → Prop
  | sign (mark : Sign) : Valid ⟨.sign mark, mark.spelling⟩
  | word {run : List Char} (hne : run ≠ []) (hl : ∀ c ∈ run, isLetter c = true) :
      Valid ⟨Kind.ofWord (String.ofList run), String.ofList run⟩
  | number {run : List Char} (hne : run ≠ []) (hd : ∀ c ∈ run, isDigit c = true) :
      Valid ⟨.int, String.ofList run⟩

/-- The token of a sign. -/
def Token.ofSign (mark : Sign) : Token := ⟨.sign mark, mark.spelling⟩

@[simp] theorem Token.kind_ofSign (mark : Sign) : (Token.ofSign mark).kind = .sign mark := rfl

theorem Kind.ofWord_cases (text : String) :
    ofWord text = .ident ∨
      ∃ word : Keyword, ofWord text = .keyword word ∧ word.spelling = text := by
  unfold ofWord
  cases h : Keyword.ofSpelling? text with
  | none => exact .inl rfl
  | some word => exact .inr ⟨word, rfl, Keyword.spelling_of_ofSpelling? h⟩

theorem Token.Valid.eq_ofSign {token : Token} (h : token.Valid) {mark : Sign}
    (hk : token.kind = .sign mark) : token = .ofSign mark := by
  cases h with
  | sign mark' =>
      cases hk
      rfl
  | word =>
      rcases Kind.ofWord_cases (String.ofList _) with h | ⟨word, h, -⟩ <;> rw [h] at hk <;> cases hk
  | number => cases hk

theorem Token.Valid.kind_ne {token : Token} (h : token.Valid) :
    token.kind ≠ .illegal ∧ token.kind ≠ .eof := by
  cases h with
  | sign | number => simp
  | @word run =>
      rcases Kind.ofWord_cases (String.ofList run) with h | ⟨word, h, -⟩ <;> simp [h]

/-! ## What scanning yields -/

/-- Whatever longest match yields is illegal or stands as its literal. -/
theorem valid_of_longestMatch {text rest : List Char} {token : Token}
    (h : longestMatch text = some (token, rest)) (hk : token.kind ≠ .illegal) : token.Valid := by
  cases match_of_longestMatch h with
  | sign mark => exact .sign mark
  | word _ hne hl => exact .word hne hl
  | number _ hne hd => exact .number hne hd
  | badNumber | illegalCharacter => exact absurd rfl hk

/-- All tokens but the end token come from a longest match. -/
theorem longestMatch_of_mem_munch {text : List Char} {token : Token} (h : token ∈ munch text) :
    token = Token.eof ∨ ∃ start rest, longestMatch start = some (token, rest) := by
  fun_induction munch text with
  | case1 => exact .inl (List.mem_singleton.mp h)
  | case2 text first rest hm ih =>
      rcases List.mem_cons.mp h with rfl | h
      · exact .inr ⟨_, rest, hm⟩
      · exact ih h

theorem valid_of_mem_munch {text : List Char} {token : Token} (h : token ∈ munch text)
    (hi : token.kind ≠ .illegal) (he : token.kind ≠ .eof) : token.Valid := by
  rcases longestMatch_of_mem_munch h with rfl | ⟨start, rest, hm⟩
  · exact absurd rfl he
  · exact valid_of_longestMatch hm hi

theorem valid_of_mem_tokenize {source : String} {token : Token} (h : token ∈ tokenize source)
    (hi : token.kind ≠ .illegal) (he : token.kind ≠ .eof) : token.Valid := by
  rw [← munch_toList] at h
  exact valid_of_mem_munch h hi he

/-! ## What a spelling scans to -/

/-- Whether a character directly after the token would be read together with it. -/
def Token.absorbs (token : Token) (c : Char) : Bool :=
  match token.kind with
  | .ident | .keyword _ => isLetter c
  | .int => isDigit c || isLetter c
  | .sign .assign | .sign .bang => c == '='
  | _ => false

theorem takeWhile_append_of_stop {α : Type} {p : α → Bool} {run rest : List α}
    (hr : ∀ a ∈ run, p a = true) (hs : ∀ a ∈ rest.head?, p a = false) :
    (run ++ rest).takeWhile p = run := by
  rw [List.takeWhile_append_of_pos hr]
  cases rest with
  | nil => simp
  | cons a rest => simp [hs a (by simp)]

theorem dropWhile_append_of_stop {α : Type} {p : α → Bool} {run rest : List α}
    (hr : ∀ a ∈ run, p a = true) (hs : ∀ a ∈ rest.head?, p a = false) :
    (run ++ rest).dropWhile p = rest := by
  rw [List.dropWhile_append_of_pos hr]
  cases rest with
  | nil => simp
  | cons a rest => simp [hs a (by simp)]

theorem isDigit_iff {c : Char} : isDigit c = true ↔ 48 ≤ c.toNat ∧ c.toNat ≤ 57 := by
  change (decide (48 ≤ c.toNat) && decide (c.toNat ≤ 57)) = true ↔ _
  simp

theorem isLetter_iff {c : Char} : isLetter c = true ↔
    (65 ≤ c.toNat ∧ c.toNat ≤ 90) ∨ (97 ≤ c.toNat ∧ c.toNat ≤ 122) ∨ c.toNat = 95 := by
  have hunderscore : c = '_' ↔ c.toNat = 95 := ⟨fun h => h ▸ rfl, fun h => Char.toNat_inj.mp h⟩
  change (decide (65 ≤ c.toNat ∧ c.toNat ≤ 90) || (decide (97 ≤ c.toNat) && decide (c.toNat ≤ 122))
    || decide (c = '_')) = true ↔ _
  simp [hunderscore, or_assoc]

theorem not_letter_of_isDigit {c : Char} (h : isDigit c = true) : isLetter c = false := by
  rw [isDigit_iff] at h
  rw [Bool.eq_false_iff, ne_eq, isLetter_iff]
  omega

theorem not_sign_of_isLetter {c : Char} (h : isLetter c = true) : c ∉ signChars := by
  have hsigns : signChars.all (fun c => !isLetter c) = true := by decide
  intro hc
  have := of_mem_signChars hsigns hc
  simp [h] at this

theorem not_sign_of_isDigit {c : Char} (h : isDigit c = true) : c ∉ signChars := by
  have hsigns : signChars.all (fun c => !isDigit c) = true := by decide
  intro hc
  have := of_mem_signChars hsigns hc
  simp [h] at this

theorem absorbs_word {run : List Char} {c : Char} :
    Token.absorbs ⟨Kind.ofWord (String.ofList run), String.ofList run⟩ c = isLetter c := by
  rcases Kind.ofWord_cases (String.ofList run) with h | ⟨word, h, -⟩ <;> simp [Token.absorbs, h]

theorem longestMatch_word {run rest : List Char} (hne : run ≠ [])
    (hl : ∀ c ∈ run, isLetter c = true) (hs : ∀ c ∈ rest.head?, isLetter c = false) :
    longestMatch (run ++ rest) =
      some (⟨Kind.ofWord (String.ofList run), String.ofList run⟩, rest) := by
  have htake := takeWhile_append_of_stop hl hs
  have hdrop := dropWhile_append_of_stop hl hs
  cases run with
  | nil => exact absurd rfl hne
  | cons c more =>
      have hc : isLetter c = true := hl c (by simp)
      have hsign := not_sign_of_isLetter hc
      have hpair : ¬ ((c = '=' ∨ c = '!') ∧ (more ++ rest).head? = some '=') := by
        rintro ⟨rfl | rfl, -⟩ <;> exact absurd hc (by decide)
      rw [List.cons_append] at htake hdrop ⊢
      rw [longestMatch, if_neg hpair, if_neg hsign, if_pos hc, htake, hdrop]

theorem longestMatch_number {run rest : List Char} (hne : run ≠ [])
    (hd : ∀ c ∈ run, isDigit c = true)
    (hs : ∀ c ∈ rest.head?, isDigit c = false ∧ isLetter c = false) :
    longestMatch (run ++ rest) = some (⟨.int, String.ofList run⟩, rest) := by
  have htake := takeWhile_append_of_stop hd fun c hc => (hs c hc).1
  have hdrop := dropWhile_append_of_stop hd fun c hc => (hs c hc).1
  cases run with
  | nil => exact absurd rfl hne
  | cons c more =>
      have hc : isDigit c = true := hd c (by simp)
      have hsign := not_sign_of_isDigit hc
      have hpair : ¬ ((c = '=' ∨ c = '!') ∧ (more ++ rest).head? = some '=') := by
        rintro ⟨rfl | rfl, -⟩ <;> exact absurd hc (by decide)
      have hletter : ¬ isLetter c = true := by simp [not_letter_of_isDigit hc]
      have hbad : ¬ rest.head?.any isLetter = true := by
        cases rest with
        | nil => simp
        | cons d rest => simp [(hs d (by simp)).2]
      rw [List.cons_append] at htake hdrop ⊢
      rw [longestMatch, if_neg hpair, if_neg hsign, if_neg hletter, if_pos hc, hdrop, if_neg hbad,
        htake]

/-- A sign is one character, or a first one and an equals sign. -/
theorem Sign.chars_cases (mark : Sign) :
    (∃ c ∈ signChars, mark.chars = [c]) ∨ ∃ c, (c = '=' ∨ c = '!') ∧ mark.chars = [c, '='] := by
  cases mark
  case equal | notEqual => exact .inr ⟨_, by decide, rfl⟩
  all_goals exact .inl ⟨_, by decide, rfl⟩

theorem absorbs_equals {mark : Sign} {c : Char} (hm : mark.chars = [c]) (hc : c = '=' ∨ c = '!') :
    Token.absorbs ⟨.sign mark, mark.spelling⟩ '=' = true := by
  rcases hc with rfl | rfl <;> cases mark <;> simp [Sign.chars] at hm <;> rfl

theorem longestMatch_sign (mark : Sign) {rest : List Char}
    (hs : ∀ c ∈ rest.head?, Token.absorbs ⟨.sign mark, mark.spelling⟩ c = false) :
    longestMatch (mark.spelling.toList ++ rest) = some (⟨.sign mark, mark.spelling⟩, rest) := by
  have hkind : Kind.ofName mark.spelling = .sign mark := Kind.ofName_name (.sign mark)
  have htext : mark.spelling.toList = mark.chars := String.toList_ofList
  rcases mark.chars_cases with ⟨c, hc, hm⟩ | ⟨c, hc, hm⟩
  · have hpair : ¬ ((c = '=' ∨ c = '!') ∧ rest.head? = some '=') := by
      rintro ⟨hc, he⟩
      have := hs '=' he
      rw [absorbs_equals hm hc] at this
      cases this
    have hspelling : String.singleton c = mark.spelling := by
      rw [Sign.spelling, hm, String.singleton_eq_ofList]
    rw [htext, hm, List.singleton_append, longestMatch, if_neg hpair, if_pos hc, hspelling, hkind]
  · have hspelling : String.ofList [c, '='] = mark.spelling := by rw [Sign.spelling, hm]
    rw [htext, hm, List.cons_append, longestMatch, if_pos ⟨hc, rfl⟩]
    simp only [hspelling, hkind]
    rfl

/-- A valid token is read off its own text if nothing after it belongs to it. -/
theorem longestMatch_append {token : Token} (h : token.Valid) {rest : List Char}
    (hs : ∀ c ∈ rest.head?, token.absorbs c = false) :
    longestMatch (token.literal.toList ++ rest) = some (token, rest) := by
  cases h with
  | sign mark => exact longestMatch_sign mark hs
  | word hne hl =>
      rw [String.toList_ofList]
      exact longestMatch_word hne hl fun c hc => absorbs_word ▸ hs c hc
  | number hne hd =>
      rw [String.toList_ofList]
      exact longestMatch_number hne hd fun c hc => by simpa [Token.absorbs] using hs c hc

/-- A valid token is told from its literal. -/
theorem Token.Valid.literal_inj {token other : Token} (h : token.Valid) (ho : other.Valid) :
    token.literal = other.literal ↔ token = other := by
  refine ⟨fun heq => ?_, congrArg Token.literal⟩
  have hread {token : Token} (h : token.Valid) :
      longestMatch token.literal.toList = some (token, []) := by
    have happend := longestMatch_append h (show ∀ c ∈ ([] : List Char).head?, _ by simp)
    rwa [List.append_nil] at happend
  have hboth := hread h
  rw [heq, hread ho] at hboth
  exact (congrArg Prod.fst (Option.some.inj hboth)).symm

/-- Whether a token is an identifier or a reserved word. -/
def Token.isWord (token : Token) : Bool :=
  match token.kind with
  | .ident | .keyword _ => true
  | _ => false

theorem isWord_ofWord (text literal : String) : Token.isWord ⟨Kind.ofWord text, literal⟩ = true := by
  rcases Kind.ofWord_cases text with h | ⟨word, h, -⟩ <;> simp [Token.isWord, h]

/-- The first character of a valid token tells signs, words and numbers apart. -/
theorem Token.Valid.first {token : Token} (h : token.Valid) :
    ∃ c more, token.literal.toList = c :: more ∧
      ((∃ mark, token.kind = .sign mark) ∧ c ∈ signChars ∨
        token.isWord = true ∧ isLetter c = true ∨ token.kind = .int ∧ isDigit c = true) := by
  cases h with
  | sign mark =>
      have htext : mark.spelling.toList = mark.chars := String.toList_ofList
      rcases mark.chars_cases with ⟨c, hc, hm⟩ | ⟨c, hc, hm⟩
      · exact ⟨c, [], htext.trans hm, .inl ⟨⟨mark, rfl⟩, hc⟩⟩
      · have hsign : c ∈ signChars := by rcases hc with rfl | rfl <;> decide
        exact ⟨c, ['='], htext.trans hm, .inl ⟨⟨mark, rfl⟩, hsign⟩⟩
  | @word run hne hl =>
      obtain ⟨c, more, rfl⟩ := List.exists_cons_of_ne_nil hne
      exact ⟨c, more, String.toList_ofList, .inr (.inl ⟨isWord_ofWord _ _, hl c (by simp)⟩)⟩
  | @number run hne hd =>
      obtain ⟨c, more, rfl⟩ := List.exists_cons_of_ne_nil hne
      exact ⟨c, more, String.toList_ofList, .inr (.inr ⟨rfl, hd c (by simp)⟩)⟩

/-- The first character of a word or a number. -/
theorem first_of_valid {token : Token} (h : token.Valid) (hk : ∀ mark, token.kind ≠ .sign mark) :
    ∃ c more, token.literal.toList = c :: more ∧ (isLetter c = true ∨ isDigit c = true) := by
  obtain ⟨c, more, ht, ⟨⟨mark, hmark⟩, -⟩ | ⟨-, hl⟩ | ⟨-, hd⟩⟩ := h.first
  · exact absurd hmark (hk mark)
  · exact ⟨c, more, ht, .inl hl⟩
  · exact ⟨c, more, ht, .inr hd⟩

theorem not_blank_of_word {c : Char} (h : isLetter c = true ∨ isDigit c = true) :
    Text.isBlank c = false := by
  rw [isLetter_iff, isDigit_iff] at h
  rw [Bool.eq_false_iff, ne_eq, Text.isBlank, Text.Ranges.covers_iff]
  simp [Text.blankRanges]
  omega

theorem not_word_of_isBlank {c : Char} (h : Text.isBlank c = true) :
    isLetter c = false ∧ isDigit c = false := by
  have hword : ¬ (isLetter c = true ∨ isDigit c = true) := by
    intro hw
    rw [not_blank_of_word hw] at h
    cases h
  simpa using hword

theorem not_blank_of_valid {token : Token} (h : token.Valid) :
    ∃ c more, token.literal.toList = c :: more ∧ Text.isBlank c = false := by
  have hsigns : signChars.all (fun c => !Text.isBlank c) = true := by decide
  obtain ⟨c, more, ht, ⟨-, hsign⟩ | ⟨-, hl⟩ | ⟨-, hd⟩⟩ := h.first
  · exact ⟨c, more, ht, by simpa using of_mem_signChars hsigns hsign⟩
  · exact ⟨c, more, ht, not_blank_of_word (.inl hl)⟩
  · exact ⟨c, more, ht, not_blank_of_word (.inr hd)⟩

/-- Scanning takes a valid token's text off as the token. -/
theorem munch_append {token : Token} (h : token.Valid) {rest : List Char}
    (hs : ∀ c ∈ rest.head?, token.absorbs c = false) :
    munch (token.literal.toList ++ rest) = token :: munch rest := by
  obtain ⟨c, more, ht, hc⟩ := not_blank_of_valid h
  have hmatch := longestMatch_append h hs
  refine munch_of_some ?_
  rwa [ht, List.cons_append, List.dropWhile_cons_of_neg (by simp [hc]), ← List.cons_append, ← ht]

theorem munch_blank {c : Char} {rest : List Char} (hc : Text.isBlank c = true) :
    munch (c :: rest) = munch rest := by
  rw [munch, munch, List.dropWhile_cons_of_pos hc]

/-! ## Signs and words among other text -/

/-- Nothing but an equals sign is read together with a sign before it. -/
theorem absorbs_ofSign {mark : Sign} {c : Char} (h : c ≠ '=') :
    (Token.ofSign mark).absorbs c = false := by
  cases mark <;> simp [Token.absorbs, Token.ofSign, h]

theorem munch_ofSign (mark : Sign) {rest : List Char} (h : ∀ c ∈ rest.head?, c ≠ '=') :
    munch (mark.spelling.toList ++ rest) = .ofSign mark :: munch rest :=
  munch_append (.sign mark) fun c hc => absorbs_ofSign (h c hc)

/-- A sign that no other sign starts with is read whatever comes next. -/
theorem munch_lone (mark : Sign) {c : Char} (hm : mark.chars = [c]) (ha : c ≠ '=') (hb : c ≠ '!')
    {rest : List Char} : munch (c :: rest) = .ofSign mark :: munch rest := by
  have htext : mark.spelling.toList = [c] := String.toList_ofList.trans hm
  have habsorbs (d : Char) : (Token.ofSign mark).absorbs d = false := by
    cases mark
    case assign => exact absurd (by simpa [Sign.chars] using hm.symm) ha
    case bang => exact absurd (by simpa [Sign.chars] using hm.symm) hb
    all_goals rfl
  have hrun : munch (mark.spelling.toList ++ rest) = .ofSign mark :: munch rest :=
    munch_append (.sign mark) fun d _ => habsorbs d
  rwa [htext] at hrun

/-- Text that does not go on with a word or a number. -/
def Parted (rest : List Char) : Prop :=
  ∀ c ∈ rest.head?, isLetter c = false ∧ isDigit c = false

@[simp] theorem parted_nil : Parted [] := by simp [Parted]

@[simp] theorem parted_cons {c : Char} {rest : List Char} :
    Parted (c :: rest) ↔ isLetter c = false ∧ isDigit c = false := by
  simp [Parted]

/-- A word or a number among other text. -/
theorem munch_parted {token : Token} (h : token.Valid) (hk : ∀ mark, token.kind ≠ .sign mark)
    {rest : List Char} (hrest : Parted rest) :
    munch (token.literal.toList ++ rest) = token :: munch rest := by
  refine munch_append h fun c hc => ?_
  obtain ⟨hl, hd⟩ := hrest c hc
  cases h with
  | sign mark => exact absurd rfl (hk mark)
  | word => rw [absorbs_word, hl]
  | number => simp [Token.absorbs, hl, hd]

end MonkeyFront
