import MonkeyFront.Proofs.Parser.Accounting
import MonkeyFront.Proofs.Scanner.Spelling
import MonkeyFront.Proofs.Text.OneLine

/-!
# Messages

What the parser reports it has found in the source, at a place that it came to. So its messages are
made of fixed words, of kinds of the closed set and of the literals of scanned tokens, and all of
these are printable: a literal with other characters in it would be that of an illegal token, which
quotes them.
-/

namespace MonkeyFront

/-! ## Tokens -/

/-- A token whose kind and literal are written in printable characters. -/
structure Token.Printable (token : Token) : Prop where
  kind : Text.Printable token.kind.name
  literal : Text.Printable token.literal

theorem Kind.printable_name {kind : Kind} (h : kind ∈ reserved) : Text.Printable kind.name := by
  have hall : ∀ kind ∈ reserved,
      kind.name.toList.all (fun c => 0x20 ≤ c.toNat && c.toNat ≤ 0x7E) = true := by decide
  exact Text.printable_of_ascii (hall kind h)

theorem Kind.ofWord_mem_reserved (text : String) : ofWord text ∈ reserved := by
  rcases ofWord_cases text with h | ⟨word, h, -⟩ <;> rw [h]
  · decide
  · cases word <;> decide

theorem printable_word {run : List Char}
    (h : ∀ c ∈ run, isLetter c = true ∨ isDigit c = true) : Text.Printable (String.ofList run) := by
  intro c hc
  rw [String.toList_ofList] at hc
  have hword := h c hc
  rw [isLetter_iff, isDigit_iff] at hword
  exact Text.isPrintable_of_ascii (by omega) (by omega)

theorem printable_eof : Token.Printable Token.eof :=
  ⟨Text.printable_of_ascii, Text.printable_of_ascii⟩

theorem printable_of_longestMatch {text rest : List Char} {token : Token}
    (h : longestMatch text = some (token, rest)) : token.Printable := by
  cases match_of_longestMatch h with
  | sign mark =>
      have hname : Text.Printable mark.spelling := by
        cases mark <;> exact Text.printable_of_ascii
      exact ⟨hname, hname⟩
  | word _ _ hl =>
      exact ⟨Kind.printable_name (Kind.ofWord_mem_reserved _),
        printable_word fun c hc => .inl (hl c hc)⟩
  | number _ _ hd =>
      have hkind : Kind.int ∈ Kind.reserved := by decide
      exact ⟨Kind.printable_name hkind, printable_word fun c hc => .inr (hd c hc)⟩
  | badNumber | illegalCharacter =>
      have hkind : Kind.illegal ∈ Kind.reserved := by decide
      have hmessage {start : String} (hs : Text.Printable start) (text : String) :
          Text.Printable (start ++ Text.quoted text) :=
        Text.printable_append.mpr ⟨hs, Text.printable_quoted text⟩
      exact ⟨Kind.printable_name hkind, hmessage Text.printable_of_ascii _⟩

theorem printable_of_mem_tokenize {source : String} {token : Token} (h : token ∈ tokenize source) :
    token.Printable := by
  rw [← munch_toList] at h
  rcases longestMatch_of_mem_munch h with rfl | ⟨start, rest, hm⟩
  · exact printable_eof
  · exact printable_of_longestMatch hm

namespace Parser

open Rule

/-! ## Reports and places -/

/-- A report of what a parser finds in a row of lexemes. -/
def FoundIn (lexemes : List Lexeme) (report : Report) : Prop :=
  ∃ parser : Parser, parser.upcoming <:+ lexemes ∧ parser.Finds report.diagnostic

/-- What is reported on the way from one parser to another was found there. -/
structure Searches (first last : Parser) : Prop where
  upcoming : last.upcoming <:+ first.upcoming
  found : ∀ report ∈ last.reports, report ∈ first.reports ∨ FoundIn first.upcoming report

theorem Searches.trans {first middle last : Parser} (h : Searches first middle)
    (hl : Searches middle last) : Searches first last := by
  refine ⟨hl.upcoming.trans h.upcoming, fun report hm => ?_⟩
  rcases hl.found report hm with hbefore | ⟨parser, hplace, hfinds⟩
  · exact h.found report hbefore
  · exact .inr ⟨parser, hplace.trans h.upcoming, hfinds⟩

theorem Searches.advance {first last : Parser} (h : Searches first last) :
    Searches first last.advance :=
  ⟨(List.tail_suffix _).trans h.upcoming, h.found⟩

theorem contract_searches : Contract fun first _ last => Searches first last where
  stay _ := ⟨List.suffix_rfl, fun _ => .inl⟩
  next _ := ⟨List.tail_suffix _, fun _ => .inl⟩
  refuse {parser diagnostic} h := by
    refine ⟨List.suffix_rfl, fun report hm => ?_⟩
    rcases Array.mem_push.mp hm with hbefore | rfl
    · exact .inl hbefore
    · exact .inr ⟨parser, List.suffix_rfl, h⟩
  andThen h hl := h.trans hl
  goOn h := h.advance
  drop h := ⟨h.upcoming, h.found⟩

theorem searches_nestedIn (room : Nat) (strength : Precedence) :
    Keeps (fun first _ last => Searches first last) ((nestedIn room).parse strength) :=
  Contract.nestedIn (C := fun _ first _ last => Searches first last) (fun _ => contract_searches)
    (fun h => ⟨h.upcoming, h.found⟩) room strength

/-- The parser has found in a source whatever it reports about it. -/
theorem found_of_mem_reports {source : String} {report : Report}
    (h : report ∈ (parse source).reports) : FoundIn (lexemesOf source) report := by
  have hsearches : Searches (ofSource source) (atEnd source) :=
    contract_searches.program (searches_nestedIn maxDepth) (ofSource source)
  rw [reports_parse, Array.mem_toList_iff] at h
  rcases hsearches.found report h with hbefore | hfound
  · simp [ofSource, ofLexemes] at hbefore
  · exact hfound

/-! ## Messages of reports -/

theorem forall_currentToken {P : Token → Prop} {parser : Parser}
    (h : ∀ token ∈ parser.tokens, P token) (he : P Token.eof) : P parser.currentToken := by
  rw [currentToken_eq]
  cases ht : parser.tokens with
  | nil => exact he
  | cons first others => exact h first (by simp [ht])

/-- What is found among printable tokens is told in printable characters. -/
theorem Finds.printable {parser : Parser} {diagnostic : Diagnostic} (h : parser.Finds diagnostic)
    (ht : ∀ token ∈ parser.tokens, token.Printable) : Text.Printable diagnostic.message := by
  have hcurrent := forall_currentToken ht printable_eof
  have hpeek : parser.peekToken.Printable := by
    rw [← currentToken_advance]
    refine forall_currentToken (fun token hm => ht token ?_) printable_eof
    rw [tokens_advance] at hm
    exact List.mem_of_mem_tail hm
  cases h with
  | unexpected hk =>
      change Text.Printable (_ ++ _ ++ _ ++ _ ++ _)
      simp only [Text.printable_append, Kind.printable_name hk, hpeek.kind, and_true]
      refine ⟨⟨?_, ?_⟩, ?_⟩ <;> exact Text.printable_of_ascii
  | unclosed | tooDeep => exact Text.printable_of_ascii
  | stray =>
      unfold Diagnostic.ofStray
      split
      · exact Text.printable_append.mpr ⟨Text.printable_of_ascii, hcurrent.literal⟩
      · change Text.Printable (_ ++ _ ++ _)
        simp only [Text.printable_append, hcurrent.kind, and_true]
        exact ⟨Text.printable_of_ascii, Text.printable_of_ascii⟩
  | badInteger =>
      change Text.Printable (_ ++ _ ++ _)
      simp only [Text.printable_append, Text.printable_quoted, and_true]
      exact ⟨Text.printable_of_ascii, Text.printable_of_ascii⟩

theorem printable_of_mem_errors {source message : String} (h : message ∈ (parse source).errors) :
    Text.Printable message := by
  obtain ⟨report, hreport, rfl⟩ := List.mem_map.mp h
  obtain ⟨parser, hplace, hfinds⟩ := found_of_mem_reports hreport
  refine hfinds.printable fun token hm => ?_
  have htokens : parser.tokens <:+ (ofSource source).tokens := hplace.map _
  exact printable_of_mem_tokenize (List.mem_append_left _ (htokens.mem hm))

end Parser

end MonkeyFront
