import MonkeyFront.Proofs.Scanner.Calls
import MonkeyFront.Proofs.Scanner.Emission

/-!
# The queue keeps every token

What is emitted goes through the queue in order: nothing is lost, doubled or overtaken, in whatever
way the scanner and its cursor are called. A token for which there is no room is refused before
anything changes.
-/

namespace MonkeyFront.Scanner

/-! ## Flow -/

/-- Between two scanners lexemes are emitted into the queue and handed out of it. -/
structure Flows (before : Scanner) (ins outs : List Lexeme) (after : Scanner) : Prop where
  account : outs ++ after.queue = before.queue ++ ins
  bound : before.queue.length ≤ capacity → after.queue.length ≤ capacity
  kinds : ∀ lexeme ∈ ins, lexeme.kind ≠ .eof

/-- No end token waits. -/
def NoEnd (scanner : Scanner) : Prop := ∀ lexeme ∈ scanner.queue, lexeme.kind ≠ .eof

variable {before middle after scanner : Scanner} {ins outs moreIns moreOuts : List Lexeme}

namespace Flows

theorem idle (h : after.queue = before.queue) : Flows before [] [] after where
  account := by simp [h]
  bound := by simp [h]
  kinds := by simp

theorem trans (h : Flows before ins outs middle) (hm : Flows middle moreIns moreOuts after) :
    Flows before (ins ++ moreIns) (outs ++ moreOuts) after where
  account := by
    calc outs ++ moreOuts ++ after.queue
        = outs ++ (middle.queue ++ moreIns) := by rw [List.append_assoc, hm.account]
      _ = before.queue ++ (ins ++ moreIns) := by
          rw [← List.append_assoc, h.account, List.append_assoc]
  bound := hm.bound ∘ h.bound
  kinds := by
    intro lexeme hl
    rcases List.mem_append.mp hl with hl | hl
    · exact h.kinds lexeme hl
    · exact hm.kinds lexeme hl

theorem noEnd (h : Flows before ins outs after) (hb : before.NoEnd) : after.NoEnd := by
  intro lexeme hl
  have hmem : lexeme ∈ before.queue ++ ins := h.account ▸ List.mem_append_right outs hl
  rcases List.mem_append.mp hmem with hl | hl
  · exact hb lexeme hl
  · exact h.kinds lexeme hl

end Flows

/-! ## Steps -/

theorem enqueue_of_full (token : Token) (h : scanner.queue.length = capacity) :
    scanner.enqueue token = .error .queueFull := by
  rw [enqueue, if_pos h]

theorem enqueue_of_room (token : Token) (h : scanner.queue.length ≠ capacity) :
    scanner.enqueue token = .ok { scanner with
      cursor := scanner.cursor.ignore
      queue := scanner.queue ++ [⟨token, scanner.cursor.start, scanner.cursor.position⟩] } := by
  rw [enqueue, if_neg h]

/-- The scanner that goes on: the one after a token was taken, or the one before a refusal. -/
def goesOn (before : Scanner) : Except Fault Scanner → Scanner
  | .ok after => after
  | .error _ => before

theorem snd_afterEnqueue (before : Scanner) (outcome : Except Fault Scanner) :
    (afterEnqueue before outcome).2 = goesOn before outcome := by
  cases outcome <;> rfl

theorem Call.snd_queued (answer : Answer) (before : Scanner) (outcome : Except Fault Scanner) :
    (queued answer before outcome).2 = goesOn before outcome := by
  cases outcome <;> rfl

theorem flows_enqueue {token : Token} (hk : token.kind ≠ .eof) (before : Scanner) :
    Flows before (before.emits token) [] (goesOn before (before.enqueue token)) := by
  by_cases hfull : before.queue.length = capacity
  · rw [emits, enqueue_of_full token hfull]
    exact .idle rfl
  · rw [emits, enqueue_of_room token hfull]
    exact
      { account := by simp [goesOn]
        bound := fun hle => by
          simp only [goesOn, List.length_append, List.length_singleton]
          omega
        kinds := by simpa [Lexeme.kind] using hk }

theorem flows_plan {plan : Plan} (hp : plan.Proper) (scanner : Scanner) :
    Flows scanner (plan.emits scanner) [] (plan.run scanner).2 := by
  unfold Plan.emits Plan.run
  cases haim : plan.aim with
  | look mode => exact .idle rfl
  | put token =>
      have hmoved : Flows scanner [] [] { scanner with cursor := plan.cursor } := .idle rfl
      simp only [snd_afterEnqueue]
      exact hmoved.trans (flows_enqueue (hp token haim) _)

theorem flows_scan (scanner : Scanner) :
    Flows scanner ((Plan.ofMode scanner.cursor scanner.mode).emits scanner) [] scanner.scan.2 := by
  rw [scan_eq]
  exact flows_plan (Plan.proper_ofMode _ _) scanner

/-! ## Lexemes handed out -/

theorem flows_handOut (hn : scanner.NoEnd) :
    Flows scanner [] (Answer.tokens (.lexeme scanner.handOut.1)) scanner.handOut.2 := by
  unfold handOut
  cases hq : scanner.queue with
  | nil => exact .idle rfl
  | cons lexeme queue =>
      have hk : lexeme.kind ≠ .eof := hn lexeme (by simp [hq])
      exact
        { account := by simp [Answer.tokens, hk, hq]
          bound := fun hle => by
            rw [hq, List.length_cons] at hle
            exact Nat.le_of_succ_le hle
          kinds := by simp }

theorem nextEmits_of_settled (h : scanner.Settled) : scanner.nextEmits = [] := by
  have hidle : ¬(scanner.queue = [] ∧ scanner.mode ≠ .done) :=
    fun hs => not_settled_iff.mpr hs h
  rw [nextEmits, dif_neg hidle]

theorem nextEmits_of_scan {mode : Mode} (h : ¬scanner.Settled)
    (hs : scanner.scan = (.ok mode, after)) :
    scanner.nextEmits = (Plan.ofMode scanner.cursor scanner.mode).emits scanner
      ++ nextEmits { after with mode } := by
  rw [nextEmits, dif_pos (not_settled_iff.mp h)]
  split
  next hs' =>
    cases hs.symm.trans hs'
    rfl
  next hs' => cases hs.symm.trans hs'

theorem flows_steps {last : Scanner} {count : Nat} (h : Steps count scanner last)
    (hn : scanner.NoEnd) :
    Flows scanner scanner.nextEmits (Answer.tokens (.lexeme last.handOut.1)) last.handOut.2 := by
  induction h with
  | none hs =>
      rw [nextEmits_of_settled hs]
      exact flows_handOut hn
  | @more scanner middle last count hs hstep _ ih =>
      obtain ⟨mode, after, hscan⟩ := scan_of_not_settled hs
      cases hstep.symm.trans (stepChecked_of_scan hscan)
      have hflow := flows_scan scanner
      rw [hscan] at hflow
      have hmode : Flows scanner _ [] { after with mode } :=
        ⟨hflow.account, hflow.bound, hflow.kinds⟩
      rw [nextEmits_of_scan hs hscan]
      exact hmode.trans (ih (hmode.noEnd hn))

/-- A call for a lexeme is answered with one, whatever the cursor is and whatever waits. -/
theorem exists_next (scanner : Scanner) : ∃ lexeme after, scanner.next = (.ok lexeme, after) := by
  obtain ⟨count, -, last, hsteps⟩ := exists_steps scanner
  exact ⟨_, _, next_of_steps hsteps⟩

theorem flows_next {lexeme : Lexeme} (h : scanner.next = (.ok lexeme, after)) (hn : scanner.NoEnd) :
    Flows scanner scanner.nextEmits (Answer.tokens (.lexeme lexeme)) after := by
  obtain ⟨count, -, last, hsteps⟩ := exists_steps scanner
  have hflow := flows_steps hsteps hn
  cases h.symm.trans (next_of_steps hsteps)
  exact hflow

/-! ## Lexemes in a row -/

theorem tokens_cons (lexeme : Lexeme) (lexemes : List Lexeme) :
    Answer.tokens (.lexemes (lexeme :: lexemes))
      = Answer.tokens (.lexeme lexeme) ++ Answer.tokens (.lexemes lexemes) := by
  simp only [Answer.tokens, ← List.filter_append, List.singleton_append]

theorem tokens_of_eof {lexeme : Lexeme} (h : lexeme.kind = .eof) :
    Answer.tokens (.lexeme lexeme) = Answer.tokens (.lexemes []) := by
  simp [Answer.tokens, h]

theorem flows_drain (hn : scanner.NoEnd) :
    Flows scanner scanner.drainEmits (Answer.tokens (.lexemes scanner.drain.lexemes))
      scanner.drain.scanner := by
  fun_induction drainEmits scanner with
  | case1 scanner lexeme after hnext hk =>
      rw [drain_of_eof hnext hk, ← tokens_of_eof hk]
      exact flows_next hnext hn
  | case2 scanner lexeme after hnext hk ih =>
      have hfirst := flows_next hnext hn
      rw [drain_of_next hnext hk, Haul.cons, tokens_cons]
      exact hfirst.trans (ih (hfirst.noEnd hn))
  | case3 scanner fault after hnext =>
      obtain ⟨lexeme, after, h⟩ := scanner.exists_next
      cases h.symm.trans hnext

theorem flows_take (count : Nat) (hn : scanner.NoEnd) :
    Flows scanner (scanner.takeEmits count) (Answer.tokens (.lexemes (scanner.take count).lexemes))
      (scanner.take count).scanner := by
  induction count generalizing scanner with
  | zero => exact .idle rfl
  | succ count ih =>
      obtain ⟨lexeme, after, hnext⟩ := scanner.exists_next
      have hfirst := flows_next hnext hn
      by_cases hk : lexeme.kind = .eof
      · simp only [take, takeEmits, hnext, hk, if_true, ← tokens_of_eof hk]
        exact hfirst
      · simp only [take, takeEmits, hnext, hk, if_false, Haul.cons, tokens_cons]
        exact hfirst.trans (ih (hfirst.noEnd hn))

/-- Handing out up to the end token is that many calls and one more, which answers with the end
token. -/
theorem answers_drain (scanner : Scanner) :
    scanner.drain.fault = none ∧ scanner.drain.lexemes.length ≤ scanner.load ∧
      ∃ last, last.kind = .eof ∧
        answers (scanner.drain.lexemes.length + 1) scanner
          = scanner.drain.lexemes.map .ok ++ [.ok last] := by
  fun_induction drain scanner with
  | case1 scanner lexeme after hnext hk =>
      exact ⟨rfl, Nat.zero_le _, lexeme, hk, by simp [answers, hnext]⟩
  | case2 scanner lexeme after hnext hk ih =>
      obtain ⟨hfault, hlength, last, hlast, hanswers⟩ := ih
      have hload := load_next_lt hnext hk
      refine ⟨hfault, ?_, last, hlast, ?_⟩
      · simp only [Haul.cons, List.length_cons]
        omega
      · simp only [Haul.cons, List.length_cons, answers, hnext] at hanswers ⊢
        rw [hanswers]
        rfl
  | case3 scanner fault after hnext =>
      obtain ⟨lexeme, after, h⟩ := scanner.exists_next
      cases h.symm.trans hnext

/-- Taking a number of lexemes is never stopped short of it but by the end token. -/
theorem take_eq (count : Nat) (scanner : Scanner) :
    (scanner.take count).fault = none ∧
      (scanner.take count).lexemes = scanner.drain.lexemes.take count := by
  induction count generalizing scanner with
  | zero => exact ⟨rfl, rfl⟩
  | succ count ih =>
      obtain ⟨lexeme, after, hnext⟩ := scanner.exists_next
      by_cases hk : lexeme.kind = .eof
      · rw [drain_of_eof hnext hk]
        simp [take, hnext, hk]
      · obtain ⟨hfault, hlexemes⟩ := ih after
        rw [drain_of_next hnext hk]
        simp only [take, hnext, hk, if_false, Haul.cons]
        exact ⟨hfault, by rw [hlexemes, List.take_succ_cons]⟩

/-! ## Calls -/

namespace Call

theorem handed_stepped (result : StepResult) : handed (stepped result).1 = [] := by
  obtain ⟨outcome, after⟩ := result
  cases outcome <;> rfl

theorem handed_queued {answer : Answer} (h : answer.tokens = []) (before : Scanner)
    (outcome : Except Fault Scanner) : handed (queued answer before outcome).1 = [] := by
  cases outcome with
  | ok after => exact h
  | error fault => rfl

theorem hauled_eq {haul : Haul} (h : haul.fault = none) :
    hauled haul = (.ok (.lexemes haul.lexemes), haul.scanner) := by
  rw [hauled, h]

/-- What one call does to the queue. -/
theorem flows (call : Call) (hn : scanner.NoEnd) :
    Flows scanner (call.emits scanner) (handed (call.run scanner).1) (call.run scanner).2 := by
  cases call with
  | next =>
      obtain ⟨lexeme, after, hnext⟩ := scanner.exists_next
      simp only [run, hnext]
      exact flows_next hnext hn
  | take count =>
      rw [run, hauled_eq (take_eq count scanner).1]
      exact flows_take count hn
  | drain =>
      rw [run, hauled_eq (answers_drain scanner).1]
      exact flows_drain hn
  | scanText =>
      rw [run, handed_stepped, scanText_eq]
      exact flows_plan (Plan.proper_ofText _) scanner
  | scanWord =>
      rw [run, handed_stepped, scanWord_eq]
      exact flows_plan (Plan.proper_ofMode _ .word) scanner
  | scanNumber =>
      rw [run, handed_stepped, scanNumber_eq]
      exact flows_plan (Plan.proper_ofMode _ .number) scanner
  | emit kind proper =>
      rw [run, handed_queued rfl, snd_queued]
      exact flows_enqueue proper scanner
  | reject message =>
      rw [run, handed_queued rfl, snd_queued]
      exact flows_enqueue (by simp) scanner
  | skipBlanks => exact .idle rfl
  | cursor call =>
      have hcursor : handed (run scanner (.cursor call)).1 = [] := by
        rw [run]
        cases (call.run scanner.cursor).1 <;> rfl
      rw [hcursor]
      exact .idle rfl

end Call

theorem flows_calls (calls : List Call) (hn : scanner.NoEnd) :
    Flows scanner (scanner.emitted calls) (scanner.handedOut calls) (scanner.afterUse calls) := by
  induction calls generalizing scanner with
  | nil => exact .idle rfl
  | cons call calls ih =>
      have hcall := call.flows hn
      exact hcall.trans (ih (hcall.noEnd hn))

/-! ## Refusals -/

namespace Call

theorem snd_queued_of_error {answer : Answer} {outcome : Except Fault Scanner} {fault : Fault}
    (h : (queued answer scanner outcome).1 = .error fault) :
    (queued answer scanner outcome).2 = scanner := by
  cases outcome with
  | ok after => cases h
  | error => rfl

/-- A step that a fault stops has only moved the cursor. -/
theorem snd_stepped_of_error {plan : Plan} {fault : Fault}
    (h : (stepped (plan.run scanner)).1 = .error fault) :
    (stepped (plan.run scanner)).2 = { scanner with cursor := plan.cursor } := by
  unfold Plan.run at h ⊢
  cases haim : plan.aim with
  | look mode => rfl
  | put token =>
      simp only [haim] at h ⊢
      cases henqueue : enqueue token { scanner with cursor := plan.cursor } with
      | ok after =>
          rw [henqueue] at h
          cases h
      | error fault => rfl

/-- A call that a fault stops does not touch the queue or the mode. If it only was to let a token
wait, it touches nothing. -/
theorem run_of_error {call : Call} {fault : Fault} (h : (call.run scanner).1 = .error fault) :
    (call.run scanner).2.queue = scanner.queue ∧ (call.run scanner).2.mode = scanner.mode ∧
      (call.putsToken = true → (call.run scanner).2 = scanner) := by
  cases call with
  | next =>
      obtain ⟨lexeme, after, hnext⟩ := scanner.exists_next
      simp [run, hnext, Except.map] at h
  | take count =>
      rw [run, hauled_eq (take_eq count scanner).1] at h
      cases h
  | drain =>
      rw [run, hauled_eq (answers_drain scanner).1] at h
      cases h
  | scanText =>
      rw [run, scanText_eq] at h ⊢
      rw [snd_stepped_of_error h]
      simp [putsToken]
  | scanWord =>
      rw [run, scanWord_eq] at h ⊢
      rw [snd_stepped_of_error h]
      simp [putsToken]
  | scanNumber =>
      rw [run, scanNumber_eq] at h ⊢
      rw [snd_stepped_of_error h]
      simp [putsToken]
  | emit kind proper =>
      have hsame : (run scanner (.emit kind proper)).2 = scanner := snd_queued_of_error h
      simp [hsame]
  | reject message =>
      have hsame : (run scanner (.reject message)).2 = scanner := snd_queued_of_error h
      simp [hsame]
  | skipBlanks => cases h
  | cursor call => exact ⟨rfl, rfl, nofun⟩

end Call

/-! ## Any use -/

/-- However a scanner of a source and its cursor are called: no more than two tokens wait; what was
handed out and what waits are what was emitted, in the same order; and a call for which the queue
has no room changes neither the queue nor the mode, and nothing at all if it was only to let a token
wait. Even with any other cursor in its place, a call for a lexeme runs at most two steps and is
answered with one, and handing out up to the end token or up to a number of lexemes comes to an
end without a fault. -/
theorem queue_under_use (source : String) (calls : List Call) :
    let scanner := (ofSource source).afterUse calls
    scanner.queue.length ≤ 2 ∧
    (ofSource source).handedOut calls ++ scanner.queue = (ofSource source).emitted calls ∧
    (∀ call : Call, (call.run scanner).1 = .error .queueFull →
      (call.run scanner).2.queue = scanner.queue ∧ (call.run scanner).2.mode = scanner.mode ∧
        (call.putsToken = true → (call.run scanner).2 = scanner)) ∧
    ∀ cursor : Cursor,
      let scanner := { scanner with cursor }
      (∃ lexeme after, scanner.next = (.ok lexeme, after) ∧
        ∃ count ≤ 2, ∃ last, Steps count scanner last ∧ last.handOut = (lexeme, after)) ∧
      (scanner.drain.fault = none ∧ scanner.drain.lexemes.length ≤ 2 * cursor.left + 3 ∧
        ∃ last, last.kind = .eof ∧
          answers (scanner.drain.lexemes.length + 1) scanner
            = scanner.drain.lexemes.map .ok ++ [.ok last]) ∧
      ∀ count, (scanner.take count).fault = none ∧
        (scanner.take count).lexemes = scanner.drain.lexemes.take count := by
  intro scanner
  have hstart : (ofSource source).NoEnd := by simp [NoEnd, ofSource]
  have hflow := flows_calls calls hstart
  have hbound : scanner.queue.length ≤ 2 := hflow.bound (Nat.zero_le _)
  refine ⟨hbound, hflow.account, fun call h => Call.run_of_error h, ?_⟩
  intro cursor scanner
  obtain ⟨count, hcount, last, hsteps⟩ := exists_steps scanner
  obtain ⟨hfault, hlength, hanswers⟩ := answers_drain scanner
  have hload : scanner.load ≤ 2 * cursor.left + 3 := by
    have hwaiting : scanner.queue.length ≤ 2 := hbound
    have hleft : scanner.cursor.left = cursor.left := rfl
    unfold load
    split <;> omega
  exact ⟨⟨_, _, next_of_steps hsteps, count, Nat.le_trans hcount scanner.stepsLeft_le, last, hsteps,
    rfl⟩, ⟨hfault, Nat.le_trans hlength hload, hanswers⟩, fun count => take_eq count scanner⟩

/-- Two letters are made tokens by hand. Then there is no room for the sign that a step finds, nor
for a message. -/
theorem queue_under_use_full :
    let calls : List Call :=
      [.cursor .next, .emit .ident (by simp), .cursor .next, .emit .int (by simp)]
    let scanner := (ofSource "ab=").afterUse calls
    (Call.run scanner .scanText).1 = .error .queueFull ∧
    (Call.run scanner .scanText).2.queue = scanner.queue ∧
    (Call.run scanner (.reject "no")).1 = .error .queueFull ∧
    (Call.run scanner (.reject "no")).2 = scanner := by
  intro calls scanner
  have hblanks : scanner.cursor.skipBlanks = scanner.cursor.next.2.stepBack := by
    rw [Cursor.skipBlanks, dif_neg (by decide)]
  have hstep : (Call.run scanner .scanText).1 = .error .queueFull := by
    rw [Call.run, scanText, hblanks]
    rfl
  have hreject : (Call.run scanner (.reject "no")).1 = .error .queueFull := rfl
  have hrefusals := (queue_under_use "ab=" calls).2.2.1
  exact ⟨hstep, (hrefusals _ hstep).1, hreject, (hrefusals _ hreject).2.2 rfl⟩

end MonkeyFront.Scanner
