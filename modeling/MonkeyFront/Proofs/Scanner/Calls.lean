import MonkeyFront.Proofs.Scanner.LongestMatch
import MonkeyFront.Proofs.Scanner.StepBack

/-!
# Calls in a row

The scanner hands out one lexeme a call. Before the call and after it nothing waits and nothing is
pending, and in between it runs at most two steps. Each token takes something off the source, so the
end token comes, and once it has come no call changes anything.
-/

namespace MonkeyFront.Scanner

/-! ## The steps of a call -/

/-- A scanner with no step to run: a lexeme waits, or the source has been read. -/
def Settled (scanner : Scanner) : Prop := scanner.queue ≠ [] ∨ scanner.mode = .done

/-- `Steps count scanner last`: as many steps lead from the scanner to the first one that is
settled, and no fault stops any of them. -/
inductive Steps : Nat → Scanner → Scanner → Prop
  | none {scanner : Scanner} (h : scanner.Settled) : Steps 0 scanner scanner
  | more {scanner middle last : Scanner} {count : Nat} (h : ¬ scanner.Settled)
      (hs : scanner.stepChecked = .ok middle) (others : Steps count middle last) :
      Steps (count + 1) scanner last

/-- The lexeme that a settled scanner hands out, and the scanner after it. -/
def handOut (scanner : Scanner) : Lexeme × Scanner :=
  match scanner.queue with
  | lexeme :: queue => (lexeme, { scanner with queue })
  | [] => (Lexeme.eof scanner.cursor.position, scanner)

variable {scanner last : Scanner} {count : Nat}

theorem not_settled_iff : ¬ scanner.Settled ↔ scanner.queue = [] ∧ scanner.mode ≠ .done := by
  simp [Settled]

theorem stepsLeft_le (scanner : Scanner) : scanner.stepsLeft ≤ 2 := by
  unfold stepsLeft
  split <;> decide

/-- With an empty queue there is room for what a step makes. -/
theorem scan_of_not_settled (h : ¬ scanner.Settled) :
    ∃ mode after, scanner.scan = (.ok mode, after) := by
  obtain ⟨hq, hm⟩ := not_settled_iff.mp h
  have hp := progress_scan hm hq
  generalize scanner.scan = result at hp
  cases hp with
  | lexeme => exact ⟨_, _, rfl⟩
  | look => exact ⟨_, _, rfl⟩

theorem stepChecked_of_scan {mode : Mode} {after : Scanner}
    (h : scanner.scan = (.ok mode, after)) : scanner.stepChecked = .ok { after with mode } := by
  rw [stepChecked_eq, step, h]
  rfl

theorem exists_steps (scanner : Scanner) :
    ∃ count ≤ scanner.stepsLeft, ∃ last, Steps count scanner last := by
  induction hn : scanner.stepsLeft using Nat.strongRecOn generalizing scanner with
  | ind n ih =>
      by_cases hs : scanner.Settled
      · exact ⟨0, Nat.zero_le _, scanner, .none hs⟩
      · obtain ⟨mode, after, hscan⟩ := scan_of_not_settled hs
        obtain ⟨hq, hm⟩ := not_settled_iff.mp hs
        have hlt : stepsLeft { after with mode } < n := hn ▸ stepsLeft_scan_lt hm hq hscan
        obtain ⟨count, hle, last, hsteps⟩ := ih _ hlt _ rfl
        exact ⟨count + 1, by omega, last, .more hs (stepChecked_of_scan hscan) hsteps⟩

theorem next_of_settled (h : scanner.Settled) :
    scanner.next = (.ok scanner.handOut.1, scanner.handOut.2) := by
  cases hq : scanner.queue with
  | nil =>
      have hm : scanner.mode = .done := h.resolve_left (by simp [hq])
      simp [next_of_done hm hq, handOut, hq]
  | cons lexeme queue => simp [next_of_queue hq, handOut, hq]

/-- A call runs the steps up to a settled scanner and takes what that hands out. -/
theorem next_of_steps (h : Steps count scanner last) :
    scanner.next = (.ok last.handOut.1, last.handOut.2) := by
  induction h with
  | none hs => exact next_of_settled hs
  | more hs hstep _ ih =>
      obtain ⟨mode, after, hscan⟩ := scan_of_not_settled hs
      obtain ⟨hq, hm⟩ := not_settled_iff.mp hs
      cases hstep.symm.trans (stepChecked_of_scan hscan)
      exact (next_of_scan hm hq hscan).trans ih

/-! ## Between calls -/

/-- The scanner after a number of calls. -/
def afterCalls : Nat → Scanner → Scanner
  | 0, scanner => scanner
  | calls + 1, scanner => afterCalls calls scanner.next.2

/-- What a number of calls in a row answer. -/
def answers : Nat → Scanner → List (Except Fault Lexeme)
  | 0, _ => []
  | calls + 1, scanner => scanner.next.1 :: answers calls scanner.next.2

/-- Whether a call answered with a lexeme other than the end token. -/
def isToken : Except Fault Lexeme → Bool
  | .ok lexeme => lexeme.kind != .eof
  | .error _ => false

/-- A scanner between two calls: nothing waits, and no character is pending. -/
structure Rests (source : String) (scanner : Scanner) : Prop where
  queue : scanner.queue = []
  mode : scanner.mode = .text ∨ scanner.mode = .done
  start : scanner.cursor.start = scanner.cursor.position
  position : scanner.cursor.position ≤ source.length

/-- What calls keep: the scanner is ready for the rest of the source, or has handed out its end. -/
inductive Reading (source : String) (scanner : Scanner) : Prop
  | ready {before rest : List Char} (h : scanner.Ready before rest)
      (hs : source.toList = before ++ rest)
  | finished (h : scanner.Finished source.toList)

variable {source : String}

theorem Finished.position (h : scanner.Finished source.toList) :
    scanner.cursor.position = source.length := by
  simpa [String.length_toList] using h.cursor.position

/-- Once the end token has come, it comes again and nothing else happens. -/
theorem Finished.next (h : scanner.Finished source.toList) :
    scanner.next = (.ok (Lexeme.eof source.length), scanner) := by
  rw [next_of_done h.mode h.queue, h.position]

theorem Finished.afterCalls (h : scanner.Finished source.toList) (calls : Nat) :
    afterCalls calls scanner = scanner := by
  induction calls with
  | zero => rfl
  | succ calls ih => rwa [Scanner.afterCalls, h.next]

namespace Reading

theorem rests (h : Reading source scanner) : Rests source scanner := by
  cases h with
  | @ready before rest h hs =>
      have hlength : source.length = before.length + rest.length := by
        rw [← String.length_toList, hs, List.length_append]
      have hposition : scanner.cursor.position = before.length := h.cursor.position
      exact ⟨h.queue, .inl h.mode, h.cursor.start.trans hposition.symm, by omega⟩
  | finished h =>
      have hstart : scanner.cursor.start = source.length := by
        simpa [String.length_toList] using h.cursor.start
      exact ⟨h.queue, .inr h.mode, hstart.trans h.position.symm, Nat.le_of_eq h.position⟩

/-- What one call does. -/
theorem next (h : Reading source scanner) :
    ∃ lexeme after, scanner.next = (.ok lexeme, after) ∧ Reading source after ∧
      (lexeme.kind ≠ .eof → scanner.cursor.position < after.cursor.position) ∧
      (lexeme.kind = .eof → lexeme = Lexeme.eof source.length ∧ after.Finished source.toList) := by
  cases h with
  | finished h =>
      exact ⟨_, _, h.next, .finished h, fun hk => absurd rfl hk, fun _ => ⟨rfl, h⟩⟩
  | @ready before rest h hs =>
      cases hmatch : longestMatch (rest.dropWhile Text.isBlank) with
      | none =>
          obtain ⟨after, hnext, hafter⟩ := next_at_end h (eq_nil_of_longestMatch hmatch)
          have hlength : before.length + rest.length = source.length := by
            rw [← String.length_toList, hs, List.length_append]
          rw [← hs] at hafter
          rw [hlength] at hnext
          exact ⟨_, _, hnext, .finished hafter, fun hk => absurd rfl hk, fun _ => ⟨rfl, hafter⟩⟩
      | some result =>
          obtain ⟨token, more⟩ := result
          obtain ⟨taken, htaken, after, hnext, hafter⟩ := h.handsOut hmatch
          have hsource : source.toList = before ++ rest.takeWhile Text.isBlank ++ taken ++ more := by
            rw [hs, List.append_assoc _ taken more, ← htaken, List.append_assoc,
              List.takeWhile_append_dropWhile]
          have hpositive : 0 < taken.length := by
            have := length_longestMatch_lt hmatch
            rw [htaken, List.length_append] at this
            omega
          refine ⟨_, _, hnext, .ready hafter hsource, fun _ => ?_, fun hk => ?_⟩
          · have hbefore := h.cursor.position
            have hbehind := hafter.cursor.position
            simp only [List.length_append, List.length_nil] at hbefore hbehind
            omega
          · exact absurd hk (kind_ne_eof_of_longestMatch hmatch)

theorem afterCalls (h : Reading source scanner) (calls : Nat) :
    Reading source (afterCalls calls scanner) := by
  induction calls generalizing scanner with
  | zero => exact h
  | succ calls ih =>
      obtain ⟨lexeme, after, hnext, hafter, -⟩ := h.next
      rw [Scanner.afterCalls, hnext]
      exact ih hafter

/-- Every token takes a character, so no more tokens come than there are characters ahead. -/
theorem countP_answers_le (h : Reading source scanner) (calls : Nat) :
    (answers calls scanner).countP isToken + scanner.cursor.position ≤ source.length := by
  induction calls generalizing scanner with
  | zero => simpa [answers] using h.rests.position
  | succ calls ih =>
      obtain ⟨lexeme, after, hnext, hafter, hforward, hend⟩ := h.next
      have hothers := ih hafter
      simp only [answers, hnext, List.countP_cons]
      by_cases hk : lexeme.kind = .eof
      · have hposition := (hend hk).2.position
        have hbound := h.rests.position
        simp only [isToken, hk, bne_self_eq_false, Bool.false_eq_true, if_false]
        omega
      · have := hforward hk
        split <;> omega

end Reading

/-- The scanner of a source, after any number of calls: no lexeme waits, no character is pending, and
the calls have handed out no more tokens than the source has characters. The next call runs at most
two steps, none of which a fault stops, and hands out a lexeme. A token takes the scanner on. The end
token only comes at the end of the source, and from then on every call answers with it and changes
nothing. -/
theorem calls_ofSource (source : String) (calls : Nat) :
    Rests source (afterCalls calls (ofSource source)) ∧
    (answers calls (ofSource source)).countP isToken ≤ source.length ∧
    let before := afterCalls calls (ofSource source)
    ∃ lexeme after, before.next = (.ok lexeme, after) ∧
      (∃ count ≤ 2, ∃ last, Steps count before last ∧ last.handOut = (lexeme, after)) ∧
      (lexeme.kind ≠ .eof → before.cursor.position < after.cursor.position) ∧
      (lexeme.kind = .eof → after.cursor.position = source.length ∧
        ∀ later, (afterCalls later after).next = (.ok lexeme, after)) := by
  have hstart : Reading source (ofSource source) := .ready (ready_ofSource source) rfl
  have hbefore := hstart.afterCalls calls
  refine ⟨hbefore.rests, ?_, ?_⟩
  · have := hstart.countP_answers_le calls
    omega
  intro before
  obtain ⟨lexeme, after, hnext, -, hforward, hend⟩ := hbefore.next
  obtain ⟨count, hcount, last, hsteps⟩ := exists_steps before
  have hout := hnext.symm.trans (next_of_steps hsteps)
  refine ⟨lexeme, after, hnext, ?_, hforward, fun hk => ?_⟩
  · refine ⟨count, Nat.le_trans hcount before.stepsLeft_le, last, hsteps, ?_⟩
    simp only [Prod.mk.injEq, Except.ok.injEq] at hout
    rw [hout.1, hout.2]
  · obtain ⟨rfl, hafter⟩ := hend hk
    refine ⟨hafter.position, fun later => ?_⟩
    rw [hafter.afterCalls later, hafter.next]

end MonkeyFront.Scanner
