import MonkeyFront.FileSystem

/-!
# Writing a file

A file that was written holds what was written to it, under the name it was written to, and all else
is as it was. A new file may block ways that led nowhere, but a way that led to a place still does.
-/

namespace MonkeyFront.FileSystem

/-- Two file systems are alike but for the file at one place, and that file has given bytes in the
second. -/
structure OnlyChanged (before after : FileSystem) (place : Place) (bytes : ByteArray) : Prop where
  changed : after.file? place = some bytes
  others : ∀ other, other ≠ place → after.file? other = before.file? other
  folders : after.folders = before.folders
  here : after.here = before.here

/-- Leaving out a place does not matter when another one is looked up. -/
theorem lookup_filter_ne {place other : Place} (h : other ≠ place)
    (files : List (Place × ByteArray)) :
    (files.filter (·.1 != place)).lookup other = files.lookup other := by
  induction files with
  | nil => rfl
  | cons file files ih =>
      by_cases hplace : file.1 = place
      · have hother : (other == file.1) = false := by simpa [hplace] using h
        rw [List.filter_cons_of_neg (by simpa using hplace), ih, List.lookup_cons, hother]
      · rw [List.filter_cons_of_pos (by simpa using hplace), List.lookup_cons, List.lookup_cons, ih]

theorem onlyChanged_put (system : FileSystem) (place : Place) (bytes : ByteArray) :
    system.OnlyChanged (system.put place bytes) place bytes where
  changed := List.lookup_cons_self
  others other h := by
    have hhead : (other == place) = false := by simpa using h
    simp only [file?, put, List.lookup_cons, hhead]
    exact lookup_filter_ne h system.files
  folders := rfl
  here := rfl

/-! ## Ways -/

variable {system : FileSystem} {place : Place} {bytes : ByteArray}

theorem isFolder_put (other : Place) :
    (system.put place bytes).isFolder other = system.isFolder other := rfl

/-- What matters on the way to a place are the folders. -/
theorem enter_put {folder next : Place} {step : String} (h : system.enter folder step = .ok next) :
    (system.put place bytes).enter folder step = .ok next := by
  unfold enter at h ⊢
  rw [isFolder_put]
  by_cases hfolder : system.isFolder (folder ++ [step]) = true
  · simpa only [hfolder, if_true] using h
  · -- Without a folder ahead, a way goes on only by dots, and they do not ask for files.
    by_cases hdots : step = "." ∨ step = ".."
    · rcases hdots with rfl | rfl <;> exact h
    · rw [not_or] at hdots
      rw [if_neg hdots.1, if_neg hdots.2, if_neg hfolder] at h
      split at h
      · cases h
      · split at h <;> cases h

theorem approach_put {steps : List String} {folder : Place} {target : Place × String}
    (h : system.approach folder steps = .ok target) :
    (system.put place bytes).approach folder steps = .ok target := by
  induction steps generalizing folder with
  | nil => cases h
  | cons step others ih =>
      cases others with
      | nil => exact h
      | cons second others =>
          simp only [approach] at h ⊢
          cases hstep : system.enter folder step with
          | error obstacle => simp [hstep] at h
          | ok next =>
              simp only [hstep] at h
              simp only [enter_put hstep]
              exact ih h

theorem locate_put {name : String} {target : Place × String}
    (h : system.locate name = .ok target) :
    (system.put place bytes).locate name = .ok target := by
  unfold locate at h ⊢
  by_cases hempty : name.isEmpty = true
  · rw [if_pos hempty] at h
    cases h
  by_cases hlong : maxNameBytes < name.utf8ByteSize
  · rw [if_neg hempty, if_pos hlong] at h
    cases h
  · rw [if_neg hempty, if_neg hlong] at h ⊢
    exact approach_put h

/-! ## Names -/

theorem atName_eq_ok {α : Type} {name : String} {outcome : Except Obstacle α} {result : α} :
    atName name outcome = .ok result ↔ name.contains '\x00' = false ∧ outcome = .ok result := by
  unfold atName
  by_cases hname : name.contains '\x00' = true
  · simp only [hname, if_true, reduceCtorEq, Bool.true_eq_false, false_and]
  · rw [if_neg hname]
    rw [Bool.not_eq_true] at hname
    cases outcome with
    | error obstacle =>
        change Except.error (FileFault.blocked obstacle name) = Except.ok result ↔ _
        simp only [reduceCtorEq, and_false]
    | ok found =>
        change Except.ok found = Except.ok result ↔ _
        simp only [Except.ok.injEq, hname, true_and]

/-- The name of a file leads to its place, where there is no folder. -/
theorem placeFor_eq_ok {name : String} (h : system.placeFor name = .ok place) :
    ∃ folder last, system.locate name = .ok (folder, last) ∧ place = folder ++ [last] ∧
      name.endsWith "/" = false ∧ last.utf8ByteSize ≤ maxStepBytes ∧
      system.isFolder place = false := by
  rw [placeFor] at h
  cases hlocate : system.locate name with
  | error obstacle => simp [hlocate] at h
  | ok target =>
      obtain ⟨folder, last⟩ := target
      simp only [hlocate] at h
      split at h
      · cases h
      split at h
      · cases h
      split at h
      · cases h
      next hslash hlong hfolder =>
        cases h
        exact ⟨folder, last, rfl, rfl, by simpa using hslash, Nat.le_of_not_lt hlong,
          by simpa using hfolder⟩

/-- A file that was just put at the place for a name is found under that name. -/
theorem bytesAt_put {name : String} (h : system.placeFor name = .ok place) (bytes : ByteArray) :
    (system.put place bytes).bytesAt name = .ok bytes := by
  obtain ⟨folder, last, hlocate, rfl, hslash, hlast, hfolder⟩ := placeFor_eq_ok h
  have hchanged := (onlyChanged_put system (folder ++ [last]) bytes).changed
  simp only [bytesAt, locate_put hlocate, if_neg (Nat.not_lt_of_le hlast), isFolder_put, hfolder,
    hchanged, hslash, Bool.false_eq_true, if_false]

/-- Writing a text changes the file at the place for the name, and no other, and the file then holds
the text. -/
theorem onlyChanged_write {name text : String} {after : FileSystem}
    (h : system.write name text = .ok after) :
    ∃ place, system.placeFor name = .ok place ∧
      system.OnlyChanged after place text.toUTF8 ∧ after.read name = .ok text.toUTF8 := by
  obtain ⟨hname, hafter⟩ := atName_eq_ok.mp h
  cases hplace : system.placeFor name with
  | error obstacle => simp [hplace, Except.map] at hafter
  | ok place =>
      rw [hplace] at hafter
      cases hafter
      refine ⟨place, rfl, onlyChanged_put system place text.toUTF8, ?_⟩
      exact atName_eq_ok.mpr ⟨hname, bytesAt_put hplace text.toUTF8⟩

end MonkeyFront.FileSystem
