import Mathlib.Data.List.Chain
import MonkeyFront.Proofs.Scanner.Locality
import MonkeyFront.Proofs.Scanner.Spans

/-!
# Tokens side by side

The texts of two tokens with nothing in between are read as the two tokens, unless the first one goes
on with the text of the second. So tokens that are written in a row, with blanks or without, come back
exactly when no two of them touch that would go on in this way.
-/

namespace MonkeyFront

/-- Whether two tokens that touch are read as something else: two words, two numbers, a number and a
word, or an equals sign or a bang before a token that starts with an equals sign. -/
def Token.fuses (first second : Token) : Bool :=
  match first.kind with
  | .ident | .keyword _ => second.isWord
  | .int => second.kind == .int || second.isWord
  | .sign .assign | .sign .bang => second.literal.toList.head? == some '='
  | _ => false

/-- A token that stands in a source, and the blanks before it. -/
structure Piece where
  blanks : String
  token : Token
  blank : ∀ c ∈ blanks.toList, Text.isBlank c = true
  valid : token.Valid

/-- Nothing fuses where the second piece stands directly behind the first. -/
def Piece.Apart (first second : Piece) : Prop :=
  second.blanks = "" → first.token.fuses second.token = false

/-- Tokens that are written in a row. There may be blanks before, between and after them. -/
structure Row where
  pieces : List Piece
  last : String
  blank : ∀ c ∈ last.toList, Text.isBlank c = true

namespace Row

def tokens (row : Row) : List Token := row.pieces.map (·.token)

/-- The text as it is written. -/
def text (row : Row) : String :=
  String.join (row.pieces.map fun piece => piece.blanks ++ piece.token.literal) ++ row.last

/-- No two tokens fuse where there is no blank between them. -/
def Apart (row : Row) : Prop := row.pieces.IsChain Piece.Apart

end Row

/-! ## What goes on with a token -/

theorem eq_of_absorbs_ofSign {mark : Sign} {c : Char} (h : (Token.ofSign mark).absorbs c = true) :
    (mark.chars = ['='] ∨ mark.chars = ['!']) ∧ c = '=' := by
  cases mark <;> simp_all [Token.absorbs, Token.ofSign, Sign.chars]

/-- What longest match leaves does not go on with the token. -/
theorem absorbs_of_longestMatch {text rest : List Char} {token : Token}
    (h : longestMatch text = some (token, rest)) : ∀ c ∈ rest.head?, token.absorbs c = false := by
  cases match_of_longestMatch h with
  | sign mark _ hs =>
      intro c hc
      rw [Bool.eq_false_iff]
      intro habsorbs
      obtain ⟨hmark, rfl⟩ := eq_of_absorbs_ofSign habsorbs
      exact hs hmark hc
  | word _ _ _ hs =>
      intro c hc
      rw [absorbs_word]
      exact hs c hc
  | number _ _ _ hs =>
      intro c hc
      simp [Token.absorbs, hs c hc]
  | badNumber | illegalCharacter => exact fun c _ => rfl

/-- A valid token is read off its own text exactly if what comes next does not go on with it. -/
theorem munch_append_iff {token : Token} (h : token.Valid) {rest : List Char} {others : List Token} :
    munch (token.literal.toList ++ rest) = token :: others ↔
      (∀ c ∈ rest.head?, token.absorbs c = false) ∧ munch rest = others := by
  constructor
  · intro hmunch
    obtain ⟨c, more, ht, hc⟩ := not_blank_of_valid h
    have hdrop : (token.literal.toList ++ rest).dropWhile Text.isBlank =
        token.literal.toList ++ rest := by
      rw [ht, List.cons_append, List.dropWhile_cons_of_neg (by simp [hc])]
    cases hmatch : longestMatch (token.literal.toList ++ rest) with
    | none =>
        have hnil := eq_nil_of_longestMatch hmatch
        simp [ht] at hnil
    | some result =>
        obtain ⟨first, after⟩ := result
        rw [munch_of_some (hdrop.symm ▸ hmatch)] at hmunch
        obtain ⟨rfl, hothers⟩ := List.cons.inj hmunch
        obtain ⟨taken, htext, hstands⟩ := exists_standsFor hmatch
        have htaken : taken = first.literal.toList :=
          hstands.unique (.literal h.kind_ne.1 String.ofList_toList.symm)
        obtain rfl : rest = after := List.append_cancel_left (htaken ▸ htext)
        exact ⟨absorbs_of_longestMatch hmatch, hothers⟩
  · rintro ⟨hs, rfl⟩
    exact munch_append h hs

/-- The first character of a valid token tells whether it is a word or a number. -/
theorem class_of_valid {token : Token} (h : token.Valid) :
    ∃ c more, token.literal.toList = c :: more ∧
      token.isWord = isLetter c ∧ (token.kind == .int) = isDigit c := by
  obtain ⟨c, more, ht, ⟨⟨mark, hmark⟩, hsign⟩ | ⟨hword, hl⟩ | ⟨hint, hd⟩⟩ := h.first
  · have hl : isLetter c = false :=
      Bool.eq_false_iff.mpr fun hl => not_sign_of_isLetter hl hsign
    have hd : isDigit c = false :=
      Bool.eq_false_iff.mpr fun hd => not_sign_of_isDigit hd hsign
    exact ⟨c, more, ht, by simp [Token.isWord, hmark, hl], by simp [hmark, hd]⟩
  · have hd : isDigit c = false := by
      rw [Bool.eq_false_iff]
      intro hd
      rw [not_letter_of_isDigit hd] at hl
      cases hl
    have hint : token.kind ≠ .int := by
      intro hint
      simp [Token.isWord, hint] at hword
    exact ⟨c, more, ht, hword.trans hl.symm, by simp [hint, hd]⟩
  · have hl := not_letter_of_isDigit hd
    exact ⟨c, more, ht, by simp [Token.isWord, hint, hl], by simp [hint, hd]⟩

/-- Two tokens fuse if the first goes on with the first character of the second. -/
theorem fuses_eq (first : Token) {second : Token} (h : second.Valid) :
    first.fuses second = second.literal.toList.head?.any first.absorbs := by
  obtain ⟨c, more, ht, hword, hnumber⟩ := class_of_valid h
  rw [ht, List.head?_cons, Option.any_some]
  unfold Token.fuses Token.absorbs
  cases hk : first.kind with
  | ident | keyword => simpa using hword
  | int => simp [hword, hnumber]
  | sign mark => cases mark <;> simp [ht]
  | illegal | eof | other => rfl

/-- No token goes on with a blank. -/
theorem absorbs_of_isBlank (token : Token) {c : Char} (h : Text.isBlank c = true) :
    token.absorbs c = false := by
  obtain ⟨hl, hd⟩ := not_word_of_isBlank h
  have he : (c == '=') = false := by
    rw [beq_eq_false_iff_ne]
    rintro rfl
    exact absurd h (by decide)
  unfold Token.absorbs
  split <;> simp [hl, hd, he]

/-! ## Tokens in a row -/

namespace Row

variable {first : Piece} {pieces : List Piece} {last : String}

/-- The characters of pieces and of the blanks after them. -/
def characters (pieces : List Piece) (last : String) : List Char :=
  (pieces.flatMap fun piece => piece.blanks.toList ++ piece.token.literal.toList) ++ last.toList

theorem toList_text (row : Row) :
    row.text.toList = characters row.pieces row.last := by
  simp [text, characters, String.toList_join, List.flatMap, Function.comp_def]

theorem characters_cons : characters (first :: pieces) last =
    first.blanks.toList ++ (first.token.literal.toList ++ characters pieces last) := by
  simp [characters]

/-- What comes after a token does not go on with it exactly if the next piece is apart from it. -/
theorem absorbs_characters_iff (hlast : ∀ c ∈ last.toList, Text.isBlank c = true) :
    (∀ c ∈ (characters pieces last).head?, first.token.absorbs c = false) ↔
      ∀ second ∈ pieces.head?, first.Apart second := by
  cases pieces with
  | nil =>
      have hblank (c : Char) (hc : c ∈ (characters [] last).head?) :
          first.token.absorbs c = false :=
        absorbs_of_isBlank _ (hlast c (List.mem_of_mem_head? hc))
      simpa using hblank
  | cons second others =>
      rw [characters_cons]
      cases hblanks : second.blanks.toList with
      | nil =>
          obtain ⟨c, more, ht, -⟩ := not_blank_of_valid second.valid
          have hempty : second.blanks = "" := String.toList_eq_nil_iff.mp hblanks
          simp [Piece.Apart, hempty, fuses_eq _ second.valid, ht]
      | cons c more =>
          have hc : Text.isBlank c = true := second.blank c (by simp [hblanks])
          have hne : second.blanks ≠ "" := by
            intro he
            simp [he] at hblanks
          simp [Piece.Apart, hne, absorbs_of_isBlank _ hc]

/-- Each token of the row is read off if the one after it is apart from it. -/
theorem munch_characters_iff (hlast : ∀ c ∈ last.toList, Text.isBlank c = true) :
    munch (characters pieces last) = pieces.map (·.token) ++ [Token.eof] ↔
      pieces.IsChain Piece.Apart := by
  induction pieces with
  | nil =>
      have hnil : munch (last.toList ++ []) = [Token.eof] :=
        (munch_blanks hlast).trans (munch_of_none rfl)
      simpa [characters] using hnil
  | cons first pieces ih =>
      rw [characters_cons, munch_blanks first.blank, List.map_cons, List.cons_append,
        munch_append_iff first.valid, absorbs_characters_iff hlast, ih, List.isChain_cons]

end Row

/-- Valid tokens written in a row are read back exactly if no two of them fuse, and what is read off
any source, illegal tokens and the end token apart, are valid tokens. -/
theorem tokenize_row_iff :
    (∀ row : Row,
      tokenize row.text = row.tokens ++ [Token.eof] ↔ row.Apart) ∧
    ∀ source, ∀ token ∈ tokenize source,
      token.kind = .illegal ∨ token.kind = .eof ∨ token.Valid := by
  refine ⟨fun row => ?_, fun source token hmem => ?_⟩
  · have hmunch : tokenize row.text = munch row.text.toList :=
      Scanner.map_token_drain (Scanner.ready_ofSource row.text)
    rw [hmunch, row.toList_text]
    exact Row.munch_characters_iff row.blank
  · by_cases hi : token.kind = .illegal
    · exact .inl hi
    by_cases he : token.kind = .eof
    · exact .inr (.inl he)
    exact .inr (.inr (valid_of_mem_tokenize hmem hi he))

/-- A word before a number is no word when they change places. -/
theorem tokenize_row_iff_word_number :
    (⟨.ident, "x"⟩ : Token).Valid ∧
    tokenize "x1" = [⟨.ident, "x"⟩, ⟨.int, "1"⟩, .eof] ∧
    tokenize "1x" ≠ [⟨.int, "1"⟩, ⟨.ident, "x"⟩, .eof] := by
  have hword : (⟨.ident, "x"⟩ : Token).Valid := by
    have := tokenize_row_iff.2 "x" ⟨.ident, "x"⟩ (by decide +kernel)
    simpa using this
  have hnumber : (⟨.int, "1"⟩ : Token).Valid := by
    have := tokenize_row_iff.2 "1" ⟨.int, "1"⟩ (by decide +kernel)
    simpa using this
  let word : Piece := ⟨"", ⟨.ident, "x"⟩, by simp, hword⟩
  let number : Piece := ⟨"", ⟨.int, "1"⟩, by simp, hnumber⟩
  have hapart : Row.Apart ⟨[word, number], "", by simp⟩ := by
    simp [Row.Apart, Piece.Apart, word, number, Token.fuses, Token.isWord]
  have hfuse : ¬ Row.Apart ⟨[number, word], "", by simp⟩ := by
    simp [Row.Apart, Piece.Apart, word, number, Token.fuses, Token.isWord]
  exact ⟨hword, (tokenize_row_iff.1 _).mpr hapart, fun h => hfuse ((tokenize_row_iff.1 _).mp h)⟩

end MonkeyFront
