import MonkeyFront.Proofs.Grammar.Last
import MonkeyFront.Proofs.Parser.Completeness
import MonkeyFront.Proofs.Parser.SameTokens
import MonkeyFront.Proofs.Parser.Soundness
import MonkeyFront.Proofs.Scanner.Locality

/-!
# A semicolon keeps errors apart

What is before a semicolon, however malformed, has no say in how the text after it is parsed. Up to
the semicolon the parser for the whole text runs side by side with the one for the text that ends
there; no rule goes beyond the semicolon, and neither does skipping. A block would, since semicolons
inside braces close nothing outside of them, so blocks are allowed only where nothing is malformed.
-/

namespace MonkeyFront.Parser

open Rule Grammar

/-! ## Tokens -/

theorem munch_source (source : String) :
    (ofSource source).tokens ++ [Token.eof] = munch source.toList :=
  (munch_toList source).symm

theorem kind_ne_eof_of_mem (source : String) :
    ∀ token ∈ (ofSource source).tokens, token.kind ≠ .eof := by
  intro token hm
  obtain ⟨lexeme, hl, rfl⟩ := List.mem_map.mp hm
  exact Scanner.kind_ne_eof_of_mem_drain _ lexeme hl

theorem tokens_append_semicolon (a b : String) :
    (ofSource (a ++ ";" ++ b)).tokens =
      (ofSource a).tokens ++ .ofSign .semicolon :: (ofSource b).tokens := by
  have hd : Delimits ';' := ⟨by decide, by decide, by decide⟩
  have htokens := tokenize_append_lone .semicolon rfl hd (by decide) a b
  rw [tokens_ofSource a, tokens_ofSource b, List.dropLast_concat, ← List.cons_append,
    ← List.append_assoc] at htokens
  exact List.append_cancel_right htokens

theorem tokens_semicolon (a : String) :
    (ofSource (a ++ ";")).tokens = (ofSource a).tokens ++ [.ofSign .semicolon] := by
  have hempty : (ofSource "").tokens = [] := by
    have := munch_source ""
    rw [show "".toList = [] from rfl, munch_of_none rfl] at this
    simpa using this
  simpa [hempty] using tokens_append_semicolon a ""

/-! ## Up to the semicolon -/

/-- Two parsers that have reported the same and have the same tokens before them up to a semicolon,
where the tokens of one of them end. -/
structure Shared (more ahead : List Token) (p q : Parser) : Prop where
  plain : ∀ token ∈ ahead, token.kind ≠ .sign .leftBrace ∧ token.kind ≠ .eof
  left : p.tokens = ahead ++ [.ofSign .semicolon]
  right : q.tokens = ahead ++ .ofSign .semicolon :: more
  diagnostics : p.diagnostics = q.diagnostics

namespace Shared

variable {more ahead : List Token} {first : Token} {p q : Parser}

theorem advance (h : Shared more (first :: ahead) p q) : Shared more ahead p.advance q.advance where
  plain token hm := h.plain token (by simp [hm])
  left := by simp [h.left]
  right := by simp [h.right]
  diagnostics := h.diagnostics

theorem report (h : Shared more ahead p q) (diagnostic : Diagnostic) :
    Shared more ahead (p.report diagnostic) (q.report diagnostic) :=
  { h with diagnostics := by simp [h.diagnostics] }

theorem currentToken (h : Shared more ahead p q) : p.currentToken = q.currentToken := by
  rw [currentToken_eq, currentToken_eq, h.left, h.right]
  cases ahead <;> rfl

theorem peekToken (h : Shared more (first :: ahead) p q) : p.peekToken = q.peekToken := by
  rw [peekToken_eq, peekToken_eq, h.left, h.right]
  cases ahead <;> rfl

theorem currentToken_of_nil (h : Shared more [] p q) : p.currentToken = .ofSign .semicolon :=
  currentToken_of_tokens h.left

theorem beforeEnd (h : Shared more ahead p q) : p.beforeEnd = true := by
  have hkind : p.currentToken.kind ≠ .eof := by
    cases ahead with
    | nil => simp [h.currentToken_of_nil]
    | cons first ahead =>
        rw [currentToken_of_tokens h.left]
        exact (h.plain first (by simp)).2
  simpa [Parser.beforeEnd, currentIs] using hkind

end Shared

/-- Two parsers that are together up to a semicolon. -/
def UpTo (more : List Token) (p q : Parser) : Prop := ∃ ahead, Shared more ahead p q

/-- Two parsers that are together and have not come to the semicolon yet. -/
def Before (more : List Token) (p q : Parser) : Prop :=
  ∃ first ahead, Shared more (first :: ahead) p q

section Coupled

variable {more : List Token} {p q : Parser}

theorem UpTo.before (h : UpTo more p q) (hk : p.currentToken.kind.closes = false) :
    Before more p q := by
  obtain ⟨_ | ⟨first, ahead⟩, h⟩ := h
  · rw [h.currentToken_of_nil] at hk
    cases hk
  · exact ⟨first, ahead, h⟩

theorem Before.advance (h : Before more p q) (hk : p.peekToken.kind.closes = false) :
    Before more p.advance q.advance := by
  obtain ⟨_, ahead, h⟩ := h
  rw [← currentToken_advance] at hk
  exact UpTo.before ⟨ahead, h.advance⟩ hk

/-- Skipping stops on the semicolon if nothing stops it earlier. -/
theorem UpTo.skipStatement (h : UpTo more p q) : UpTo more p.skipStatement q.skipStatement := by
  refine skipStatement_related (fun h => ?_) (fun h he => ?_) h
  · obtain ⟨_ | ⟨first, ahead⟩, h⟩ := h
    · simp [endsStatement, currentIs, ← h.currentToken, h.currentToken_of_nil]
    · simp only [endsStatement, currentIs, peekIs, h.currentToken, h.peekToken]
  · obtain ⟨_ | ⟨first, ahead⟩, h⟩ := h
    · simp [endsStatement, currentIs, h.currentToken_of_nil] at he
    · exact ⟨ahead, h.advance⟩

theorem coupling_upTo (more : List Token) : Coupling (UpTo more) (Before more) (UpTo more) where
  near := fun ⟨first, ahead, h⟩ => ⟨first :: ahead, h⟩
  current := fun ⟨_, h⟩ => h.currentToken
  peek := fun ⟨_, _, h⟩ => h.peekToken
  before := UpTo.before
  advance := Before.advance
  next := fun ⟨_, ahead, h⟩ _ => ⟨ahead, h.advance⟩
  close := fun ⟨_, ahead, h⟩ _ => ⟨ahead, h.advance⟩
  enter := fun ⟨ahead, h⟩ => ⟨ahead, h.plain, h.left, h.right, h.diagnostics⟩
  leave := fun ⟨first, ahead, h⟩ => ⟨first, ahead, h.plain, h.left, h.right, h.diagnostics⟩
  refuse := fun ⟨first, ahead, h⟩ diagnostic => ⟨first :: ahead, h.report diagnostic⟩
  refuseHere := fun ⟨ahead, h⟩ diagnostic _ => ⟨ahead, h.report diagnostic⟩
  leaveGivenUp := fun ⟨ahead, h⟩ => ⟨ahead, h.plain, h.left, h.right, h.diagnostics⟩
  skip := UpTo.skipStatement
  drop := fun ⟨ahead, h⟩ => ⟨ahead, h.plain, h.left, h.right, h.diagnostics⟩

theorem blocksAlike_upTo (more : List Token) :
    BlocksAlike (UpTo more) (Before more) (UpTo more) := by
  intro nested p q _ h hk
  obtain ⟨first, ahead, h⟩ := h
  rw [currentToken_of_tokens h.left] at hk
  exact absurd hk (h.plain first (by simp)).1

end Coupled

/-! ## Beyond the semicolon -/

/-- The statements of the second parser are those of the first one, and then those of a parser that
is left before the tokens `more`, with all that the first one reported. -/
def Continues (nested : Nested) (more : List Token) (p q : Parser) : Prop :=
  ∃ values after middle, statementsOrGaps nested p = (some values, after) ∧
    middle.tokens = more ∧ middle.diagnostics = after.diagnostics ∧
    ∀ {others last}, statementsOrGaps nested middle = (some others, last) →
      statementsOrGaps nested q = (some (values ++ others), last)

namespace Continues

variable {nested : Nested} {more : List Token} {p q p' q' : Parser}

theorem of_end (hp : p.tokens = []) (hq : q.tokens = more) (hd : p.diagnostics = q.diagnostics) :
    Continues nested more p q := by
  have hstop : p.beforeEnd = false := by
    simp [beforeEnd, currentIs, currentToken_eq, hp, Token.eof]
  exact ⟨[], p, q, many_stop hstop, hq, hd.symm, fun h => h⟩

theorem of_item {kept : Option Statement} (hp : p.beforeEnd = true) (hq : q.beforeEnd = true)
    (hip : statementOrGap nested p = (some kept, p'))
    (hiq : statementOrGap nested q = (some kept, q')) (h : Continues nested more p' q') :
    Continues nested more p q := by
  obtain ⟨values, after, middle, hr, ht, hd, hs⟩ := h
  exact ⟨kept :: values, after, middle, many_more hp hip hr, ht, hd,
    fun hm => many_more hq hiq (hs hm)⟩

end Continues

/-- Parsers that are together up to the semicolon go over it together. -/
theorem continues_of_upTo (room : Nat) {more : List Token} {p q : Parser} (h : UpTo more p q) :
    Continues (nestedIn room) more p q := by
  have hC := coupling_upTo more
  have hn := hC.nestedIn (blocksAlike_upTo more) room
  -- By the number of lexemes left: a statement takes at least one, whether it is kept or not.
  induction hl : p.upcoming.length using Nat.strongRecOn generalizing p q with
  | ind length ih =>
      subst hl
      have ⟨_, hshared⟩ := h
      have hbefore := hshared.beforeEnd
      have hbefore' : q.beforeEnd = true := by
        rwa [beforeEnd, currentIs, ← hshared.currentToken]
      obtain ⟨kept, p', q', ⟨ahead, h'⟩, hp, hq⟩ := hC.statementOrGap hn (fun h => h) h
      have hless : p'.advance.upcoming.length < p.upcoming.length := by
        have := takes_statementOrGap (nestedIn room) upcoming_ne_nil_of_beforeEnd p hbefore
        rwa [hp] at this
      refine Continues.of_item hbefore hbefore' hp hq ?_
      cases ahead with
      | nil => exact .of_end (by simp [h'.left]) (by simp [h'.right]) h'.diagnostics
      | cons first ahead => exact ih _ hless ⟨ahead, h'.advance⟩ rfl

/-! ## Nothing malformed before it -/

theorem Quiet.diagnostics {p after : Parser} (h : Quiet p after) :
    after.diagnostics = p.diagnostics := by
  rw [Parser.diagnostics, show after.reports = p.reports from h, ← Parser.diagnostics]

/-- Well-formed statements of which the last one is closed end where their tokens end, whatever
comes next. -/
theorem continues_of_derives {room nesting : Nat} {trees : List Statement}
    {tokens more : List Token} {p q : Parser} (hd : Derives (.statements trees) nesting tokens)
    (hle : nesting ≤ room) (hr : Readable tokens)
    (hlast : ∀ token ∈ tokens.getLast?, token.kind = .sign .semicolon)
    (hp : p.tokens = tokens) (hq : q.tokens = tokens ++ more)
    (hdiag : p.diagnostics = q.diagnostics) : Continues (nestedIn room) more p q := by
  induction trees generalizing p q nesting tokens with
  | nil =>
      cases hd
      exact .of_end hp hq hdiag
  | cons tree others ih =>
      cases hd with
      | @statements closed _ _ m n read unread head tail apart =>
          obtain ⟨hlem, hlen⟩ := Nat.max_le.mp hle
          rw [readable_append] at hr
          have hp' : p.tokens = read ++ (unread ++ []) := by simpa using hp
          have hq' : q.tokens = read ++ (unread ++ more) := by simpa using hq
          -- If nothing comes after the statement in its own text, then it has the semicolon.
          have hunread (hc : closed = false) (hn : unread = []) : False := by
            subst hn
            rw [List.append_nil] at hlast
            simp [closed_of_last head hlast] at hc
          have hlast' : ∀ token ∈ unread.getLast?, token.kind = .sign .semicolon := by
            intro token ht
            exact hlast token (by rw [List.getLast?_append, ht]; rfl)
          have hcompletes : Completes (.statement closed tree) m read :=
            completes_of_derives head hr.1
          have hgo {parser : Parser} {rest : List Token} (ht : parser.tokens = read ++ rest) :=
            beforeEnd_of_startsStatement parser (startsStatement_of_tokens head ht)
          obtain ⟨after, hs, hquiet, hitem⟩ :=
            yields_statement tail apart hcompletes hlem hp' (by simp)
          obtain ⟨after', hs', hquiet', hitem'⟩ := yields_statement tail apart hcompletes hlem hq'
            fun hc hn => (hunread hc hn).elim
          refine Continues.of_item (hgo hp') (hgo hq') hitem hitem' ?_
          refine ih tail hlen hr.2 hlast' ?_ (hs'.advance_tokens hq') ?_
          · rw [hs.advance_tokens hp', List.append_nil]
          · exact hquiet.diagnostics.trans (hdiag.trans hquiet'.diagnostics.symm)

/-! ## Sources -/

/-- A parser that goes on with the tokens of a source keeps the statements of the source and reports
its errors. -/
theorem parse_of_continues {a b whole : String}
    (h : Continues (nestedIn maxDepth) (ofSource b).tokens (ofSource a) (ofSource whole)) :
    (parse whole).program.statements =
        (parse a).program.statements ++ (parse b).program.statements ∧
      (parse whole).errors = (parse a).errors ++ (parse b).errors := by
  obtain ⟨values, after, middle, hr, ht, hd, hs⟩ := h
  have hsame : SameTokens middle.diagnostics middle (ofSource b) :=
    ⟨ht, by simp [diagnostics, ofSource, ofLexemes]⟩
  obtain ⟨others, last, hm, -⟩ := program_run (nestedIn maxDepth) middle
  obtain ⟨last', hb, hlast⟩ := (alike_statementsOrGaps maxDepth hsame).of_some hm
  obtain ⟨hpa, hea⟩ := parse_of_statementsOrGaps hr
  obtain ⟨hpb, heb⟩ := parse_of_statementsOrGaps hb
  obtain ⟨hpw, hew⟩ := parse_of_statementsOrGaps (hs hm)
  rw [hpa, hpb, hpw, hea, heb, hew, hlast.diagnostics, hd, List.filterMap_append, List.map_append]
  exact ⟨rfl, rfl⟩

/-- A semicolon keeps apart what is before it, if that has no block, or if nothing in it is
malformed. -/
theorem continues_of_semicolon {a : String} (b : String)
    (h : (∀ token ∈ (ofSource a).tokens, token.kind ≠ .sign .leftBrace) ∨
      (parse (a ++ ";")).errors = []) :
    Continues (nestedIn maxDepth) (ofSource b).tokens (ofSource (a ++ ";"))
      (ofSource (a ++ ";" ++ b)) := by
  rcases h with h | h
  · exact continues_of_upTo maxDepth ⟨(ofSource a).tokens,
      fun token hm => ⟨h token hm, kind_ne_eof_of_mem a token hm⟩, tokens_semicolon a,
      tokens_append_semicolon a b, rfl⟩
  · obtain ⟨nesting, tokens, hd, hle, hr, ht⟩ := reads_source h
    have htokens : (ofSource (a ++ ";")).tokens = tokens := List.append_cancel_right ht
    have hlast : tokens = (ofSource a).tokens ++ [.ofSign .semicolon] :=
      htokens ▸ tokens_semicolon a
    refine continues_of_derives hd hle hr ?_ htokens ?_ rfl
    · simp [hlast]
    · rw [hlast, tokens_append_semicolon, List.append_assoc]
      rfl

end MonkeyFront.Parser

namespace MonkeyFront

/-- A semicolon keeps errors apart. If the text before it has no braces, or if nothing in it is
malformed, then the text after it is parsed as if it stood alone: its statements come after those of
the text before, and so do its errors. -/
theorem parse_append_semicolon (a b : String)
    (h : (∀ token ∈ tokenize a,
        token.kind ≠ .sign .leftBrace ∧ token.kind ≠ .sign .rightBrace) ∨
      (parse (a ++ ";")).errors = []) :
    (parse (a ++ ";" ++ b)).program.statements =
        (parse (a ++ ";")).program.statements ++ (parse b).program.statements ∧
      (parse (a ++ ";" ++ b)).errors = (parse (a ++ ";")).errors ++ (parse b).errors := by
  refine Parser.parse_of_continues (Parser.continues_of_semicolon b ?_)
  exact h.imp_left fun h token hm => (h token (List.mem_append_left _ hm)).1

/-- An open call is given up at the semicolon, and the statement after it is kept. -/
theorem parse_append_semicolon_call :
    (∀ token ∈ tokenize "let x = f(1, ",
      token.kind ≠ .sign .leftBrace ∧ token.kind ≠ .sign .rightBrace) ∧
    (parse ("let x = f(1, " ++ ";" ++ "y")).program.statements =
      (parse ("let x = f(1, " ++ ";")).program.statements ++ (parse "y").program.statements ∧
    (parse ("let x = f(1, " ++ ";" ++ "y")).errors =
      (parse ("let x = f(1, " ++ ";")).errors ++ (parse "y").errors := by
  have hbraces : ∀ token ∈ tokenize "let x = f(1, ",
      token.kind ≠ .sign .leftBrace ∧ token.kind ≠ .sign .rightBrace := by decide +kernel
  exact ⟨hbraces, parse_append_semicolon _ _ (.inl hbraces)⟩

end MonkeyFront
