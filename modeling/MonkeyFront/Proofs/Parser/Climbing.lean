import MonkeyFront.Proofs.Parser.Calls
import MonkeyFront.Proofs.Parser.Soundness
import MonkeyFront.Tree.Equality

/-!
# Climbing

What an expression comes to from any parser, for any strength that its operators have to exceed. The
operators that were climbed over lie on the left spine of the tree. A run for a higher strength goes
the same way and stops earlier, so its tree lies on that spine too.
-/

namespace MonkeyFront.Parser

open Rule Grammar

/-! ## Left spines -/

/-- The left operands and callees of a tree lead down to an inner one, past operators that all bind
tighter than a strength. -/
inductive Spine (bound : Precedence) (inner : Expression) : Expression → Prop
  | here : Spine bound inner inner
  | binary {operator : Token} {left right : Expression} {text : String}
      (ht : bound < operator.kind.precedence) (h : Spine bound inner left) :
      Spine bound inner (.binary operator left text right)
  | call {opening : Token} {callee : Expression} {arguments : List Expression}
      (ht : bound < opening.kind.precedence) (h : Spine bound inner callee) :
      Spine bound inner (.call opening callee arguments)

theorem Spine.trans {bound : Precedence} {inner middle outer : Expression}
    (h : Spine bound inner middle) (hs : Spine bound middle outer) : Spine bound inner outer := by
  induction hs with
  | here => exact h
  | binary ht _ ih => exact .binary ht ih
  | call ht _ ih => exact .call ht ih

/-! ## The operator loop -/

section Loop

variable {nested : Nested} {room : Nat} {bound higher : Precedence} {parser after : Parser}
  {left tree : Expression}

/-- What an operator makes of what is to the left of it. -/
theorem continued_eq_some (h : continued nested left parser = (some tree, after)) :
    (∃ arguments, tree = .call parser.peekToken left arguments) ∨
      ∃ right, tree = .binary parser.peekToken left parser.peekToken.literal right := by
  by_cases hp : parser.advance.currentToken.kind = .sign .leftParen
  · rw [continued_of_leftParen hp, call, current_bind, currentToken_advance] at h
    obtain ⟨arguments, last, -, hpure⟩ := bind_eq_some.mp h
    cases hpure
    exact .inl ⟨arguments, rfl⟩
  · rw [continued_of_other hp, binary, current_bind, see_bind, skip_bind,
      currentToken_advance] at h
    obtain ⟨right, last, -, hpure⟩ := bind_eq_some.mp h
    cases hpure
    exact .inr ⟨right, rfl⟩

theorem spine_continued (hg : parser.bindsTighter bound = true)
    (h : continued nested left parser = (some tree, after)) : Spine bound left tree := by
  have ht : bound < parser.peekToken.kind.precedence := bindsTighter_iff.mp hg
  rcases continued_eq_some h with ⟨arguments, rfl⟩ | ⟨right, rfl⟩
  · exact .call ht .here
  · exact .binary ht .here

/-- The loop takes in operators that bind tighter, and it stops before one that does not. -/
theorem spine_climb (h : climb nested bound left parser = (some tree, after)) :
    Spine bound left tree ∧ after.peekPrecedence.level ≤ bound.level := by
  unfold climb at h
  fun_induction fold (bindsTighter bound) (continued nested) (takes_continued nested bound) left
    parser with
  | case1 => cases h
  | case2 left parser hg next middle hs ih =>
      obtain ⟨hspine, hstop⟩ := ih h
      exact ⟨(spine_continued hg hs).trans hspine, hstop⟩
  | case3 left parser hg =>
      cases h
      exact ⟨.here, bindsTighter_eq_false_iff.mp (Bool.eq_false_iff.mpr hg)⟩

theorem suffix_climb (h : climb (nestedIn room) bound left parser = (some tree, after)) :
    after.upcoming <:+ parser.upcoming :=
  have hkeeps := (contract_within room).climb (within_nestedIn room) bound left
  (hkeeps.of_some h).upcoming

/-- A loop for a higher strength stops on the way of one for a lower strength. -/
theorem climb_of_le (hle : bound.level ≤ higher.level)
    (h : climb (nestedIn room) bound left parser = (some tree, after)) :
    ∃ inner last, climb (nestedIn room) higher left parser = (some inner, last) ∧
      Spine bound inner tree ∧ after.upcoming <:+ last.upcoming := by
  have hwhole := h
  unfold climb at h
  fun_induction fold (bindsTighter bound) (continued (nestedIn room))
    (takes_continued (nestedIn room) bound) left parser with
  | case1 => cases h
  | case2 left parser hg next middle hs ih =>
      cases hh : parser.bindsTighter higher with
      | true =>
          obtain ⟨inner, last, hrun, hspine, hsuffix⟩ := ih h h
          refine ⟨inner, last, ?_, hspine, hsuffix⟩
          rw [climb_more (bindsTighter_iff.mp hh), bind_of_some hs]
          exact hrun
      | false =>
          have hstop := bindsTighter_eq_false_iff.mp hh
          exact ⟨left, parser, climb_stop hstop, (spine_climb hwhole).1, suffix_climb hwhole⟩
  | case3 left parser hg =>
      cases h
      have hstop := bindsTighter_eq_false_iff.mp (Bool.eq_false_iff.mpr hg)
      exact ⟨_, _, climb_stop (Nat.le_trans hstop hle), .here, List.suffix_rfl⟩

end Loop

/-! ## Expressions -/

/-- What an expression yields is yielded by a level: an operand, and the loop after it. -/
theorem expression_eq_some {strength : Precedence} {parser after : Parser} {tree : Expression}
    (h : expression strength parser = (some tree, after)) :
    ∃ room base middle last, parser.room = room + 1 ∧
      operand (nestedIn room) parser.enter = (some base, middle) ∧
      climb (nestedIn room) strength base middle = (some tree, last) ∧ last.leave = after := by
  change (nestedIn parser.room).parse strength parser = _ at h
  cases hroom : parser.room with
  | zero =>
      rw [hroom] at h
      cases h
  | succ room =>
      rw [hroom, nestedIn_eq_some] at h
      obtain ⟨last, hlevel, hleave⟩ := h
      obtain ⟨base, middle, ho, hc⟩ := bind_eq_some.mp hlevel
      exact ⟨room, base, middle, last, rfl, ho, hc, hleave⟩

theorem expression_of_climb {strength : Precedence} {parser middle last : Parser}
    {base tree : Expression} {room : Nat} (hroom : parser.room = room + 1)
    (ho : operand (nestedIn room) parser.enter = (some base, middle))
    (hc : climb (nestedIn room) strength base middle = (some tree, last)) :
    expression strength parser = (some tree, last.leave) := by
  change (nestedIn parser.room).parse strength parser = _
  rw [hroom, nestedIn_eq_some]
  exact ⟨last, bind_eq_some.mpr ⟨base, middle, ho, hc⟩, rfl⟩

theorem room_enter {parser : Parser} {room : Nat} (h : parser.room = room + 1) :
    parser.enter.room = room := by
  simp only [Parser.room, enter] at h ⊢
  omega

/-- What an expression comes to, from any parser and for any strength. If nothing is reported, then
the tokens that were gone over derive the tree. All operators between the tree and its first operand
bind tighter than the strength, and the next token does not. For a higher strength, the expression
ends no later, and its tree is the same or lies on the left spine of this one. -/
theorem expression_run {parser after : Parser} {strength : Precedence} {tree : Expression}
    (h : expression strength parser = (some tree, after)) :
    (after.reports = parser.reports →
      ∃ nesting tokens, Derives (.expression .equality tree) nesting tokens ∧
        parser.Spans tokens after) ∧
    (∃ base middle, withRoom operand parser.enter = (some base, middle) ∧
      Spine strength base tree) ∧
    (after.peekToken.kind = .sign .semicolon ∨ after.peekPrecedence.level ≤ strength.level) ∧
    ∀ higher : Precedence, strength.level ≤ higher.level →
      ∃ inner last, expression higher parser = (some inner, last) ∧ Spine strength inner tree ∧
        after.upcoming <:+ last.upcoming := by
  obtain ⟨room, base, middle, last, hroom, ho, hc, rfl⟩ := expression_eq_some h
  obtain ⟨hspine, hstop⟩ := spine_climb hc
  refine ⟨fun hq => ?_, ⟨base, middle, ?_, hspine⟩, .inr hstop, fun higher hle => ?_⟩
  · obtain ⟨stratum, -, ⟨nesting, tokens, hd, -, -, hspans⟩, -⟩ :=
      (sound_nestedIn parser.room).reads h hq
    exact ⟨nesting, tokens, hd.loosen stratum.equality_le, hspans⟩
  · rw [withRoom, room_enter hroom]
    exact ho
  · obtain ⟨inner, stop, hrun, hinner, hsuffix⟩ := climb_of_le hle hc
    exact ⟨inner, stop.leave, expression_of_climb hroom ho hrun, hinner, hsuffix⟩

/-- The right operand of a product ends before the sum that it is in. -/
theorem expression_run_product :
    let parser := (ofSource "a * b * c + d").advance.advance
    let after := (expression .sum parser).2
    let tree : Expression :=
      .binary ⟨.sign .asterisk, "*"⟩ (.identifier ⟨⟨.ident, "b"⟩, "b"⟩) "*"
        (.identifier ⟨⟨.ident, "c"⟩, "c"⟩)
    (∃ nesting tokens, Derives (.expression .equality tree) nesting tokens ∧
        parser.Spans tokens after) ∧
      (∃ base middle, withRoom operand parser.enter = (some base, middle) ∧
        Spine .sum base tree) ∧
      ∃ inner last, expression .product parser = (some inner, last) ∧ Spine .sum inner tree ∧
        after.upcoming <:+ last.upcoming := by
  intro parser after tree
  have hrun : expression .sum parser = (some tree, after) := by decide +kernel
  have hquiet : after.reports = parser.reports := by decide +kernel
  obtain ⟨hreads, hspine, -, hhigher⟩ := expression_run hrun
  exact ⟨hreads hquiet, hspine, hhigher .product (by decide)⟩

end MonkeyFront.Parser
