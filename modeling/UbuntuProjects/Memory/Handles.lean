import Mathlib.Data.List.Infix

/-!
# Handles

A record of what is done with handles, the newest first: each is acquired, used and released,
any number of times. A handle is held where it was acquired and not released since; a record
is proper when only handles are used that are held then.
-/

set_option autoImplicit false

namespace Memory

/-- What is done with a handle. -/
inductive Access (δ : Type) where
  | acquire (d : δ)
  | use (d : δ)
  | release (d : δ)

variable {δ : Type} {d e : δ} {log log' : List (Access δ)}

/-- The handle was acquired and has not been released since. -/
def Held (d : δ) (log : List (Access δ)) : Prop :=
  ∃ later earlier, log = later ++ .acquire d :: earlier ∧ .release d ∉ later

/-- A handle is held wherever it is used. -/
def Proper (log : List (Access δ)) : Prop :=
  ∀ later d earlier, log = later ++ .use d :: earlier → Held d earlier

/-! ## One more access -/

@[simp] theorem held_nil : ¬Held d [] := by
  rintro ⟨later, earlier, h, -⟩
  exact absurd h (List.append_ne_nil_of_right_ne_nil _ (List.cons_ne_nil _ _)).symm

/-- INTERNAL: an access that neither acquires nor releases the handle. -/
theorem held_cons {a : Access δ} (hacquire : a ≠ .acquire d) (hrelease : a ≠ .release d) :
    Held d (a :: log) ↔ Held d log := by
  constructor
  · rintro ⟨later, earlier, h, hnot⟩
    cases later with
    | nil => exact absurd (List.cons.inj h).1 hacquire
    | cons b later =>
      obtain ⟨-, rfl⟩ := List.cons.inj h
      exact ⟨later, earlier, rfl, fun hmem => hnot (List.mem_cons_of_mem _ hmem)⟩
  · rintro ⟨later, earlier, rfl, hnot⟩
    refine ⟨a :: later, earlier, rfl, ?_⟩
    intro hmem
    rcases List.mem_cons.mp hmem with h | h
    · exact hrelease h.symm
    · exact hnot h

theorem held_acquire : Held d (.acquire e :: log) ↔ e = d ∨ Held d log := by
  by_cases heq : e = d
  · subst heq
    exact iff_of_true ⟨[], log, rfl, List.not_mem_nil⟩ (Or.inl rfl)
  · rw [held_cons (by simpa using heq) (by simp)]
    exact (or_iff_right heq).symm

theorem held_use : Held d (.use e :: log) ↔ Held d log := held_cons (by simp) (by simp)

theorem held_release : Held d (.release e :: log) ↔ e ≠ d ∧ Held d log := by
  by_cases heq : e = d
  · subst heq
    apply iff_of_false
    · rintro ⟨later, earlier, h, hnot⟩
      cases later with
      | nil => exact absurd (List.cons.inj h).1 (by simp)
      | cons b later =>
        obtain ⟨rfl, -⟩ := List.cons.inj h
        exact hnot List.mem_cons_self
    · exact fun h => h.1 rfl
  · rw [held_cons (by simp) (by simpa using heq)]
    exact (and_iff_right heq).symm

/-- Nothing has been used. -/
theorem proper_nil : Proper ([] : List (Access δ)) := by
  intro later d earlier h
  exact absurd h (List.append_ne_nil_of_right_ne_nil _ (List.cons_ne_nil _ _)).symm

/-- INTERNAL: an access that is not a use. -/
theorem proper_cons {a : Access δ} (ha : ∀ d, a ≠ .use d) : Proper (a :: log) ↔ Proper log := by
  constructor
  · intro h later d earlier heq
    exact h (a :: later) d earlier (congrArg (a :: ·) heq)
  · intro h later d earlier heq
    cases later with
    | nil => exact absurd (List.cons.inj heq).1 (ha d)
    | cons b later => exact h later d earlier (List.cons.inj heq).2

theorem proper_acquire : Proper (.acquire d :: log) ↔ Proper log := proper_cons (by simp)

theorem proper_release : Proper (.release d :: log) ↔ Proper log := proper_cons (by simp)

theorem proper_use : Proper (.use d :: log) ↔ Held d log ∧ Proper log := by
  constructor
  · intro h
    refine ⟨h [] d log rfl, ?_⟩
    intro later e earlier heq
    exact h (.use d :: later) e earlier (congrArg (.use d :: ·) heq)
  · rintro ⟨hheld, h⟩ later e earlier heq
    cases later with
    | nil =>
      obtain ⟨hde, rfl⟩ := List.cons.inj heq
      cases hde
      exact hheld
    | cons b later => exact h later e earlier (List.cons.inj heq).2

/-- A record was proper at every earlier moment. -/
theorem Proper.of_suffix (h : Proper log') (hsuffix : log <:+ log') : Proper log := by
  obtain ⟨newer, rfl⟩ := hsuffix
  intro later d earlier heq
  apply h (newer ++ later) d earlier
  rw [heq, List.append_assoc]

end Memory
