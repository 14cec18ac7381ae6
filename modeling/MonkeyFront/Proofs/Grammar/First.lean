import MonkeyFront.Proofs.Grammar.Basic

/-!
# First tokens and terminals

What the first token of a phrase can be, and which tokens a phrase can have at all. An illegal token
occurs in no phrase.
-/

namespace MonkeyFront

/-- Whether an expression can start with a token of this kind. -/
def Kind.startsExpression : Kind → Bool
  | .ident | .int => true
  | .keyword word => word ∈ [.trueWord, .falseWord, .ifWord, .fnWord]
  | .sign mark => mark ∈ [.bang, .minus, .leftParen]
  | _ => false

/-- Whether a statement can start with a token of this kind. -/
def Kind.startsStatement (kind : Kind) : Bool :=
  kind.startsExpression || kind ∈ [.keyword .letWord, .keyword .returnWord]

/-- Whether a token of this kind can be part of a program. -/
def Kind.isTerminal : Kind → Bool
  | .illegal | .eof | .other .. => false
  | _ => true

@[simp] theorem Kind.isTerminal_ident : Kind.isTerminal .ident = true := rfl

@[simp] theorem Kind.isTerminal_int : Kind.isTerminal .int = true := rfl

@[simp] theorem Kind.isTerminal_keyword (word : Keyword) :
    (Kind.keyword word).isTerminal = true := rfl

@[simp] theorem Kind.isTerminal_sign (mark : Sign) : (Kind.sign mark).isTerminal = true := rfl

namespace Grammar

/-- What is known of the first token of a phrase. -/
def Phrase.Starts (phrase : Phrase) (tokens : List Token) : Prop :=
  match phrase with
  | .expression .. => tokens.head?.any (·.kind.startsExpression) = true
  | .statement .. => tokens.head?.any (·.kind.startsStatement) = true
  | .statements _ => tokens.head?.all (·.kind.startsStatement) = true
  | _ => True

theorem head?_append_of_any {p : Token → Bool} {tokens more : List Token}
    (h : tokens.head?.any p = true) : (tokens ++ more).head?.any p = true := by
  cases tokens with
  | nil => simp at h
  | cons first others => simpa using h

theorem Derives.starts {phrase : Phrase} {nesting : Nat} {tokens : List Token}
    (h : Derives phrase nesting tokens) : phrase.Starts tokens := by
  induction h with
  | name h | integer h | trueWord h | falseWord h =>
      simp [Phrase.Starts, h, Kind.startsExpression]
  | group ho | conditional ho | alternative ho | function ho =>
      simp [Phrase.Starts, ho, Kind.startsExpression]
  | unary ho => rcases ho with ho | ho <;> simp [Phrase.Starts, ho, Kind.startsExpression]
  | call _ _ _ _ ih _ =>
      rw [List.append_assoc]
      exact head?_append_of_any ih
  | binary _ _ _ _ ih _ => exact head?_append_of_any ih
  | tighter _ ih => exact ih
  | noArguments | arguments | noOtherArguments | otherArguments | block => trivial
  | binding hw | result hw =>
      simp [Phrase.Starts, hw, Kind.startsStatement]
  | bare _ ih =>
      simp only [Phrase.Starts, List.head?_cons, Option.any_some, Kind.startsStatement] at ih ⊢
      simp [ih]
  | closed _ _ ih => exact head?_append_of_any ih
  | noStatements => rfl
  | @statements _ _ _ _ _ tokens more _ _ _ ih _ =>
      cases tokens with
      | nil => simp [Phrase.Starts] at ih
      | cons first others => simpa [Phrase.Starts] using ih

theorem OtherNames.isTerminal {names : List Identifier} {tokens : List Token}
    (h : OtherNames names tokens) : ∀ token ∈ tokens, token.kind.isTerminal = true := by
  induction h with
  | none => simp
  | more hc hn _ ih => simpa [hc, hn] using ih

theorem Names.isTerminal {names : List Identifier} {tokens : List Token}
    (h : Names names tokens) : ∀ token ∈ tokens, token.kind.isTerminal = true := by
  cases h with
  | none => simp
  | some hn others => simpa [hn] using others.isTerminal

theorem Derives.isTerminal {phrase : Phrase} {nesting : Nat} {tokens : List Token}
    (h : Derives phrase nesting tokens) : ∀ token ∈ tokens, token.kind.isTerminal = true := by
  induction h with
  | function hw ho names hc _ ih =>
      have := names.isTerminal
      simp_all [or_imp]
  | unary ho _ ih => rcases ho with ho | ho <;> simpa [ho] using ih
  | _ => simp_all [or_imp]

end Grammar

end MonkeyFront
