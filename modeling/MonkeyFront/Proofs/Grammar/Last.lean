import MonkeyFront.Proofs.Grammar.First
import MonkeyFront.Proofs.Grammar.Strata

/-!
# Last tokens

A semicolon ends a statement and nothing else: inside an expression it can only stand in a block,
and a block goes on to its closing brace.
-/

namespace MonkeyFront.Grammar

/-- Tokens of which the last one is no semicolon. -/
def EndsOpen (tokens : List Token) : Prop :=
  ∀ token ∈ tokens.getLast?, token.kind ≠ .sign .semicolon

namespace EndsOpen

variable {tokens more : List Token} {token : Token}

theorem append (h : EndsOpen tokens) (hm : EndsOpen more) : EndsOpen (tokens ++ more) := by
  intro token ht
  rw [List.getLast?_append] at ht
  cases hl : more.getLast? with
  | none => exact h token (by simpa [hl] using ht)
  | some last => exact hm token (by simpa [hl] using ht)

theorem cons (hk : token.kind ≠ .sign .semicolon) (h : EndsOpen tokens) :
    EndsOpen (token :: tokens) := by
  have hone : EndsOpen [token] := by simpa [EndsOpen] using hk
  exact hone.append h

theorem append_cons (hk : token.kind ≠ .sign .semicolon) (h : EndsOpen more) :
    EndsOpen (tokens ++ token :: more) := by
  intro last hl
  rw [List.getLast?_append, Option.or_of_isSome (by simp)] at hl
  exact cons hk h last hl

theorem concat (hk : token.kind ≠ .sign .semicolon) : EndsOpen (tokens ++ [token]) :=
  append_cons hk (by simp [EndsOpen])

end EndsOpen

/-- Phrases that do not end with the semicolon of a statement. -/
def Unclosed : Phrase → Prop
  | .statement true _ | .statements _ => False
  | _ => True

/-- The semicolon after a statement is no part of an expression in it. -/
theorem endsOpen_of_derives {phrase : Phrase} {nesting : Nat} {tokens : List Token}
    (hd : Derives phrase nesting tokens) (hu : Unclosed phrase) : EndsOpen tokens := by
  induction hd with
  | name h | integer h | trueWord h | falseWord h => simp [EndsOpen, h]
  | group _ _ hc | call _ _ _ hc | block _ _ hc => exact .concat (by simp [hc])
  | conditional _ _ _ hc _ _ ih => exact .append_cons (by simp [hc]) (ih trivial)
  | alternative _ _ _ _ _ he _ _ _ ih => exact .append_cons (by simp [he]) (ih trivial)
  | function _ _ _ hc _ ih => exact .append_cons (by simp [hc]) (ih trivial)
  | unary ho _ ih =>
      refine .cons ?_ (ih trivial)
      rcases ho with ho | ho <;> simp [ho]
  | binary _ ho hs _ _ ih =>
      have hne := Stratum.ne_semicolon_of_mem hs
      exact .append_cons (by simpa [ho] using hne) (ih trivial)
  | tighter _ ih | bare _ ih => exact ih trivial
  | noArguments | noOtherArguments => simp [EndsOpen]
  | arguments _ _ ih ih' => exact (ih trivial).append (ih' trivial)
  | otherArguments hc _ _ ih ih' =>
      exact (EndsOpen.cons (by simp [hc]) (ih trivial)).append (ih' trivial)
  | binding hw hn ha _ ih =>
      exact .cons (by simp [hw]) (.cons (by simp [hn]) (.cons (by simp [ha]) (ih trivial)))
  | result hw _ ih => exact .cons (by simp [hw]) (ih trivial)
  | closed | noStatements | statements => exact hu.elim

/-- A statement of which the last token is a semicolon is closed by it. -/
theorem closed_of_last {closed : Bool} {tree : Statement} {nesting : Nat} {tokens : List Token}
    (hd : Derives (.statement closed tree) nesting tokens)
    (hlast : ∀ token ∈ tokens.getLast?, token.kind = .sign .semicolon) : closed = true := by
  have hstarts := hd.starts
  cases closed with
  | true => rfl
  | false =>
      have hopen := endsOpen_of_derives hd trivial
      cases hl : tokens.getLast? with
      | none => simp [List.getLast?_eq_none_iff.mp hl, Phrase.Starts] at hstarts
      | some last => exact absurd (hlast last hl) (hopen last hl)

end MonkeyFront.Grammar
