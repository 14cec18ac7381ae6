import MonkeyFront.Parser.Basic

/-!
# Rules of the parser

A rule moves the parser on and yields a value, unless it gives up. Giving up takes nothing back:
the parser stays where it was moved to. No rule gives lexemes back, and a loop ends because its
item takes at least one.
-/

namespace MonkeyFront.Parser

/-- A move of the parser that yields a value or gives up. -/
def Rule (α : Type) : Type := Parser → Option α × Parser

namespace Rule

variable {α β : Type}

/-- Yields a value and moves nothing. -/
protected def pure (value : α) : Rule α := fun parser => (some value, parser)

/-- Goes on with what a rule yields; gives up if it does. -/
protected def bind (rule : Rule α) (more : α → Rule β) : Rule β := fun parser =>
  match rule parser with
  | (some value, after) => more value after
  | (none, after) => (none, after)

instance : Monad Rule where
  pure := Rule.pure
  bind := Rule.bind

def see (view : Parser → α) : Rule α := fun parser => (some (view parser), parser)

def move (change : Parser → Parser) : Rule Unit := fun parser => (some (), change parser)

/-- Reports a diagnostic and gives up. -/
def refuse (diagnostic : Diagnostic) : Rule α := fun parser => (none, parser.report diagnostic)

/-- Changes the parser if a rule gives up, which remains given up. -/
def onGivingUp (change : Parser → Parser) (rule : Rule α) : Rule α := fun parser =>
  match rule parser with
  | (some value, after) => (some value, after)
  | (none, after) => (none, change after)

/-- Yields nothing where a rule gives up, and goes on from there. -/
def attempt (rule : Rule α) : Rule (Option α) := fun parser =>
  let (outcome, after) := rule parser
  (some outcome, after)

/-! ## Rules that give nothing back -/

/-- A rule after which no more lexemes are to come than before it. -/
def NonGrowing (rule : Rule α) : Prop :=
  ∀ parser, (rule parser).2.upcoming.length ≤ parser.upcoming.length

theorem nonGrowing_pure (value : α) : NonGrowing (pure value : Rule α) :=
  fun _ => Nat.le_refl _

theorem NonGrowing.bind {rule : Rule α} {more : α → Rule β} (h : NonGrowing rule)
    (hm : ∀ value, NonGrowing (more value)) : NonGrowing (rule >>= more) := by
  intro parser
  change (Rule.bind rule more parser).2.upcoming.length ≤ parser.upcoming.length
  have hp := h parser
  unfold Rule.bind
  split
  next value after heq =>
    rw [heq] at hp
    exact Nat.le_trans (hm value after) hp
  next after heq =>
    rw [heq] at hp
    exact hp

theorem nonGrowing_see (view : Parser → α) : NonGrowing (see view) :=
  fun _ => Nat.le_refl _

theorem nonGrowing_advance : NonGrowing (move advance) := by
  intro parser
  simp [move, advance]

theorem nonGrowing_refuse (diagnostic : Diagnostic) :
    NonGrowing (refuse diagnostic : Rule α) :=
  fun _ => Nat.le_refl _

theorem NonGrowing.onGivingUp {change : Parser → Parser} {rule : Rule α}
    (hc : ∀ parser, (change parser).upcoming.length ≤ parser.upcoming.length)
    (h : NonGrowing rule) : NonGrowing (onGivingUp change rule) := by
  intro parser
  have hp := h parser
  unfold Rule.onGivingUp
  split
  next heq => rw [heq] at hp; exact hp
  next after heq => rw [heq] at hp; exact Nat.le_trans (hc after) hp

theorem NonGrowing.attempt {rule : Rule α} (h : NonGrowing rule) :
    NonGrowing rule.attempt :=
  fun parser => h parser

theorem NonGrowing.ite {condition : Prop} [Decidable condition] {first second : Rule α}
    (h : NonGrowing first) (hs : NonGrowing second) :
    NonGrowing (if condition then first else second) := by
  split <;> assumption

/-! ## Loops -/

/-- A rule that takes at least one lexeme off a parser for which a condition holds. -/
def Takes (goOn : Parser → Bool) (rule : Rule α) : Prop :=
  ∀ parser, goOn parser = true →
    (rule parser).2.upcoming.length < parser.upcoming.length

/-- The values of a rule that is repeated as long as a condition holds. -/
def many (goOn : Parser → Bool) (item : Rule α) (takes : Takes goOn item) (parser : Parser) :
    Option (List α) × Parser :=
  if _hg : goOn parser = true then
    match _hi : item parser with
    | (none, after) => (none, after)
    | (some value, after) =>
      match many goOn item takes after with
      | (none, last) => (none, last)
      | (some values, last) => (some (value :: values), last)
  else (some [], parser)
termination_by parser.upcoming.length
decreasing_by
  have := takes parser _hg
  rw [_hi] at this
  exact this

/-- The value that a rule makes of a first one when it is repeated as long as a condition
holds. -/
def fold (goOn : Parser → Bool) (step : α → Rule α) (takes : ∀ value, Takes goOn (step value))
    (value : α) (parser : Parser) : Option α × Parser :=
  if _hg : goOn parser = true then
    match _hs : step value parser with
    | (none, after) => (none, after)
    | (some next, after) => fold goOn step takes next after
  else (some value, parser)
termination_by parser.upcoming.length
decreasing_by
  have := takes value parser _hg
  rw [_hs] at this
  exact this

theorem nonGrowing_many (goOn : Parser → Bool) (item : Rule α) (takes : Takes goOn item) :
    NonGrowing (many goOn item takes) := by
  intro parser
  fun_induction many goOn item takes parser with
  | case1 parser hg after hi =>
    have := takes parser hg
    rw [hi] at this
    exact Nat.le_of_lt this
  | case2 parser hg value after hi last hl ih =>
    have := takes parser hg
    rw [hi] at this
    rw [hl] at ih
    exact Nat.le_of_lt (Nat.lt_of_le_of_lt ih this)
  | case3 parser hg value after hi values last hl ih =>
    have := takes parser hg
    rw [hi] at this
    rw [hl] at ih
    exact Nat.le_of_lt (Nat.lt_of_le_of_lt ih this)
  | case4 parser hg => exact Nat.le_refl _

theorem nonGrowing_fold (goOn : Parser → Bool) (step : α → Rule α)
    (takes : ∀ value, Takes goOn (step value)) (value : α) :
    NonGrowing (fold goOn step takes value) := by
  intro parser
  fun_induction fold goOn step takes value parser with
  | case1 value parser hg after hs =>
    have := takes value parser hg
    rw [hs] at this
    exact Nat.le_of_lt this
  | case2 value parser hg next after hs ih =>
    have := takes value parser hg
    rw [hs] at this
    exact Nat.le_of_lt (Nat.lt_of_le_of_lt ih this)
  | case3 => exact Nat.le_refl _

/-! ## Tokens -/

def skip : Rule Unit := move advance

def current : Rule Token := see currentToken

/-- Goes on if the next token is of a kind, and refuses it otherwise. -/
def expect (kind : Kind) : Rule Unit := fun parser =>
  if parser.peekIs kind then (some (), parser.advance)
  else (none, parser.report (.unexpected kind parser.peekToken.kind))

/-- Goes on if the next token is of a kind. -/
def skipOptional (kind : Kind) : Rule Unit := move fun parser =>
  if parser.peekIs kind then parser.advance else parser

theorem nonGrowing_skip : NonGrowing skip := nonGrowing_advance

theorem nonGrowing_current : NonGrowing current := nonGrowing_see _

theorem nonGrowing_expect (kind : Kind) : NonGrowing (expect kind) := by
  intro parser
  unfold expect
  split
  · simp [advance]
  · exact Nat.le_refl _

theorem nonGrowing_skipOptional (kind : Kind) : NonGrowing (skipOptional kind) := by
  intro parser
  simp only [skipOptional, move]
  split
  · simp [advance]
  · exact Nat.le_refl _

theorem takes_skip {goOn : Parser → Bool}
    (h : ∀ parser, goOn parser = true → parser.upcoming ≠ []) : Takes goOn skip := by
  intro parser hg
  have : 0 < parser.upcoming.length := List.length_pos_iff.mpr (h parser hg)
  simp only [skip, move, advance, List.length_tail]
  omega

/-- An item that ends by going on to the next token takes a lexeme, if there is one. -/
theorem takes_bind_skip {goOn : Parser → Bool} {rule : Rule α} {more : α → Rule β}
    (h : ∀ parser, goOn parser = true → parser.upcoming ≠ []) (ha : NonGrowing rule)
    (hs : ∀ parser, (rule parser).1 ≠ none)
    (hm : ∀ value, NonGrowing (more value)) :
    Takes goOn (rule >>= fun value => skip >>= fun _ => more value) := by
  intro parser hg
  have hpos : 0 < parser.upcoming.length := List.length_pos_iff.mpr (h parser hg)
  change (Rule.bind rule _ parser).2.upcoming.length < parser.upcoming.length
  have hp := ha parser
  unfold Rule.bind
  split
  next value after heq =>
    replace hp : after.upcoming.length ≤ parser.upcoming.length := by simpa [heq] using hp
    have hlast := hm value after.advance
    have : after.advance.upcoming.length < parser.upcoming.length := by
      simp only [advance, List.length_tail]
      omega
    exact Nat.lt_of_le_of_lt hlast this
  next after heq => exact absurd (by rw [heq]) (hs parser)

/-- An item that takes a lexeme first takes one whatever follows. -/
theorem Takes.bind {goOn : Parser → Bool} {rule : Rule α} {more : α → Rule β}
    (h : Takes goOn rule) (hm : ∀ value, NonGrowing (more value)) :
    Takes goOn (rule >>= more) := by
  intro parser hg
  change (Rule.bind rule more parser).2.upcoming.length < parser.upcoming.length
  have hp := h parser hg
  unfold Rule.bind
  split
  next value after heq =>
    rw [heq] at hp
    exact Nat.lt_of_le_of_lt (hm value after) hp
  next after heq =>
    rw [heq] at hp
    exact hp

end Rule

end MonkeyFront.Parser
