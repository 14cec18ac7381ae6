import MonkeyFront.Scanner.Call

/-!
# What is emitted

A step moves the cursor and then either goes on in another mode or lets a token wait. What it does
depends on the cursor alone; the queue decides whether there is room for the token. A lexeme is
emitted exactly where the queue takes a token.
-/

namespace MonkeyFront

/-! ## The last character of a lexeme -/

namespace Cursor

variable {cursor : Cursor} {allowed : Char → Bool}

theorem fst_accept (allowed : Char → Bool) (cursor : Cursor) :
    (cursor.accept allowed).1 = cursor.next.1.any allowed := by
  unfold accept
  split <;> simp_all

/-- A character that was accepted is the last one of the pending lexeme, if that has any. -/
theorem getLast_lexeme_accept (h : (cursor.accept allowed).1 = true) :
    ∀ c ∈ (cursor.accept allowed).2.lexeme.toList.getLast?, allowed c = true := by
  have hany : cursor.next.1.any allowed = true := by rwa [← fst_accept]
  by_cases hlt : cursor.position < cursor.source.size
  · have hallowed : allowed cursor.source[cursor.position] = true := by simpa [next, hlt] using hany
    have hread : (cursor.accept allowed).2 = cursor.next.2 := by simp [accept, hany]
    intro c hc
    simp only [hread, next, hlt, dite_true, lexeme, String.toList_ofList, List.getLast?_eq_getElem?,
      Array.length_toList, Array.getElem?_toList, Array.getElem?_extract, Array.size_extract,
      Option.mem_def, Option.ite_none_right_eq_some] at hc
    obtain ⟨hlast, hc⟩ := hc
    have hindex : cursor.start + (min (cursor.position + 1) cursor.source.size - cursor.start - 1)
        = cursor.position := by omega
    rw [hindex, Array.getElem?_eq_getElem hlt, Option.some.injEq] at hc
    rwa [← hc]
  · simp [next, hlt] at hany

/-- A character that was refused leaves the pending lexeme as it was. -/
theorem lexeme_accept_refused (h : (cursor.accept allowed).1 = false) :
    (cursor.accept allowed).2.lexeme = cursor.lexeme := by
  have hany : cursor.next.1.any allowed = false := by rwa [← fst_accept]
  have hread : (cursor.accept allowed).2 = cursor.next.2.stepBack := by simp [accept, hany]
  rw [hread]
  by_cases hlt : cursor.position < cursor.source.size
  · simp [next, hlt, stepBack, lexeme]
  · simp [next, hlt, stepBack, lexeme]

end Cursor

/-- A text that ends with a character that the end's name does not end with is not that name. -/
theorem Kind.ofName_ne_eof {text : String} {allowed : Char → Bool} (hF : allowed 'F' = false)
    (h : ∀ c ∈ text.toList.getLast?, allowed c = true) : ofName text ≠ .eof := by
  intro heof
  obtain rfl : text = "EOF" := by
    rw [← name_ofName text, heof]
    rfl
  have hlast := h 'F' (by decide)
  simp [hF] at hlast

theorem Kind.ofWord_ne_eof (text : String) : ofWord text ≠ .eof := by
  unfold ofWord
  split <;> simp

namespace Scanner

/-! ## Plans -/

/-- What a step does where its cursor has stopped. -/
inductive Aim where
  /-- It goes on in a mode. -/
  | look (mode : Mode)
  /-- It lets a token wait. -/
  | put (token : Token)

/-- Where a step moves the cursor, and what it does there. -/
structure Plan where
  cursor : Cursor
  aim : Aim

namespace Plan

/-- The plan to emit the pending lexeme. -/
def emit (cursor : Cursor) (kind : Kind) : Plan := ⟨cursor, .put ⟨kind, cursor.lexeme⟩⟩

/-- The plan to reject the pending lexeme. -/
def reject (cursor : Cursor) (message : String) : Plan := ⟨cursor, .put ⟨.illegal, message⟩⟩

def ofText (cursor : Cursor) : Plan :=
  let first := cursor.skipBlanks.accept fun c => c == '!' || c == '='
  if first.1 then
    let second := (first.2.accept (· == '=')).2
    emit second (Kind.ofName second.lexeme)
  else
    let lone := first.2.accept Sign.isLone
    if lone.1 then emit lone.2 (Kind.ofName lone.2.lexeme)
    else
      let here := lone.2.peek.2
      match lone.2.peek.1 with
      | none => ⟨here, .look .done⟩
      | some c =>
        if isLetter c then ⟨here, .look .word⟩
        else if isDigit c then ⟨here, .look .number⟩
        else reject here.next.2 (illegalCharacter c)

def ofWord (cursor : Cursor) : Plan :=
  let read := cursor.acceptRun isLetter
  emit read (Kind.ofWord read.lexeme)

def ofNumber (cursor : Cursor) : Plan :=
  let digits := (cursor.acceptRun isDigit).peek
  if digits.1.any isLetter then
    let read := digits.2.acceptRun fun c => isLetter c || isDigit c
    reject read (badNumber read.lexeme)
  else emit digits.2 .int

/-- The plan of a step in a mode. -/
def ofMode (cursor : Cursor) : Mode → Plan
  | .text => ofText cursor
  | .word => ofWord cursor
  | .number => ofNumber cursor
  | .done => ⟨cursor, .look .done⟩

/-- Carries a plan out. -/
def run (scanner : Scanner) (plan : Plan) : StepResult :=
  let moved := { scanner with cursor := plan.cursor }
  match plan.aim with
  | .look mode => (.ok mode, moved)
  | .put token => afterEnqueue moved (moved.enqueue token)

end Plan

theorem scanText_eq (scanner : Scanner) :
    scanner.scanText = (Plan.ofText scanner.cursor).run scanner := by
  simp only [scanText, Plan.ofText]
  split
  · rfl
  split
  · rfl
  generalize (Cursor.accept Sign.isLone _).2 = cursor
  cases cursor.peek.1 with
  | none => rfl
  | some c =>
      simp only
      split
      · rfl
      split
      · rfl
      · rfl

theorem scanWord_eq (scanner : Scanner) :
    scanner.scanWord = (Plan.ofWord scanner.cursor).run scanner := rfl

theorem scanNumber_eq (scanner : Scanner) :
    scanner.scanNumber = (Plan.ofNumber scanner.cursor).run scanner := by
  simp only [scanNumber, Plan.ofNumber]
  split <;> rfl

/-- A step carries out the plan of its mode. -/
theorem scan_eq (scanner : Scanner) :
    scanner.scan = (Plan.ofMode scanner.cursor scanner.mode).run scanner := by
  unfold scan
  cases hm : scanner.mode with
  | text => exact scanner.scanText_eq
  | word => exact scanner.scanWord_eq
  | number => exact scanner.scanNumber_eq
  | done => rfl

/-! ## No end token -/

/-- A plan that does not let the end token wait. -/
def Plan.Proper (plan : Plan) : Prop := ∀ token, plan.aim = .put token → token.kind ≠ .eof

theorem Plan.proper_look (cursor : Cursor) (mode : Mode) : Proper ⟨cursor, .look mode⟩ := by
  intro token h
  cases h

theorem Plan.proper_emit {cursor : Cursor} {kind : Kind} (h : kind ≠ .eof) :
    (emit cursor kind).Proper := by
  rintro _ ⟨⟩
  exact h

theorem Plan.proper_reject (cursor : Cursor) (message : String) :
    (reject cursor message).Proper := by
  rintro _ ⟨⟩
  simp

/-- A sign is emitted after the cursor has accepted it, so the lexeme ends with a sign even if other
text was pending before. -/
theorem Plan.proper_ofText (cursor : Cursor) : (ofText cursor).Proper := by
  simp only [ofText]
  split
  next hfirst =>
    apply proper_emit
    cases hsecond : (Cursor.accept (· == '=')
        (cursor.skipBlanks.accept fun c => c == '!' || c == '=').2).1 with
    | true => exact Kind.ofName_ne_eof (by decide) (Cursor.getLast_lexeme_accept hsecond)
    | false =>
        rw [Cursor.lexeme_accept_refused hsecond]
        exact Kind.ofName_ne_eof (by decide) (Cursor.getLast_lexeme_accept hfirst)
  split
  next hlone =>
    exact proper_emit (Kind.ofName_ne_eof (by decide) (Cursor.getLast_lexeme_accept hlone))
  split
  · exact proper_look _ _
  split
  · exact proper_look _ _
  split
  · exact proper_look _ _
  · exact proper_reject _ _

theorem Plan.proper_ofMode (cursor : Cursor) (mode : Mode) : (ofMode cursor mode).Proper := by
  cases mode with
  | text => exact proper_ofText cursor
  | word => exact proper_emit (Kind.ofWord_ne_eof _)
  | number =>
      simp only [ofMode, ofNumber]
      split
      · exact proper_reject _ _
      · exact proper_emit (by simp)
  | done => exact proper_look _ _

/-! ## The record -/

/-- What a token adds to the queue: a lexeme, unless the queue takes none. -/
def emits (token : Token) (scanner : Scanner) : List Lexeme :=
  match scanner.enqueue token with
  | .ok _ => [⟨token, scanner.cursor.start, scanner.cursor.position⟩]
  | .error _ => []

/-- What carrying out a plan emits. -/
def Plan.emits (scanner : Scanner) (plan : Plan) : List Lexeme :=
  match plan.aim with
  | .look _ => []
  | .put token => Scanner.emits token { scanner with cursor := plan.cursor }

/-- What the steps emit that run until a lexeme can be handed out. -/
def nextEmits (scanner : Scanner) : List Lexeme :=
  if _hs : scanner.queue = [] ∧ scanner.mode ≠ .done then
    let emitted := (Plan.ofMode scanner.cursor scanner.mode).emits scanner
    match _h : scanner.scan with
    | (.ok mode, after) => emitted ++ nextEmits { after with mode }
    | (.error _, _) => emitted
  else []
termination_by scanner.stepsLeft
decreasing_by exact stepsLeft_scan_lt _hs.2 _hs.1 _h

/-- What is emitted while lexemes are handed out up to the end token. -/
def drainEmits (scanner : Scanner) : List Lexeme :=
  match _h : scanner.next with
  | (.ok lexeme, after) =>
    if _hk : lexeme.kind = .eof then scanner.nextEmits else scanner.nextEmits ++ drainEmits after
  | (.error _, _) => scanner.nextEmits
termination_by scanner.load
decreasing_by exact load_next_lt _h _hk

/-- What is emitted while at most a number of lexemes is handed out. -/
def takeEmits : Nat → Scanner → List Lexeme
  | 0, _ => []
  | count + 1, scanner =>
    match scanner.next with
    | (.ok lexeme, after) =>
      if lexeme.kind = .eof then scanner.nextEmits else scanner.nextEmits ++ takeEmits count after
    | (.error _, _) => scanner.nextEmits

namespace Call

/-- The lexemes that a call emits. -/
def emits (scanner : Scanner) : Call → List Lexeme
  | .next => scanner.nextEmits
  | .take count => scanner.takeEmits count
  | .drain => scanner.drainEmits
  | .scanText => (Plan.ofText scanner.cursor).emits scanner
  | .scanWord => (Plan.ofWord scanner.cursor).emits scanner
  | .scanNumber => (Plan.ofNumber scanner.cursor).emits scanner
  | .emit kind _ => scanner.emits ⟨kind, scanner.cursor.lexeme⟩
  | .reject message => scanner.emits ⟨.illegal, message⟩
  | .skipBlanks | .cursor _ => []

/-- Whether a call is to let a token wait and does nothing else. -/
def putsToken : Call → Bool
  | .emit .. | .reject _ => true
  | _ => false

end Call

/-- The lexemes of an answer, the end token apart. -/
def Answer.tokens : Answer → List Lexeme
  | .lexeme value => [value].filter (·.kind ≠ .eof)
  | .lexemes values => values.filter (·.kind ≠ .eof)
  | .done | .mode _ | .cursor _ => []

/-- The tokens that a call hands out, none if it is stopped. -/
def handed : Except Fault Answer → List Lexeme
  | .ok answer => answer.tokens
  | .error _ => []

/-- The lexemes that calls in a row emit. -/
def emitted (scanner : Scanner) : List Call → List Lexeme
  | [] => []
  | call :: calls => call.emits scanner ++ emitted (call.run scanner).2 calls

/-- The tokens that calls in a row hand out. -/
def handedOut (scanner : Scanner) : List Call → List Lexeme
  | [] => []
  | call :: calls => handed (call.run scanner).1 ++ handedOut (call.run scanner).2 calls

end Scanner

end MonkeyFront
