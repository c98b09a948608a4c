import Mathlib.Logic.Function.Basic
import Mathlib.Data.List.Basic

/-!
# Tables of file descriptors

The descriptors of a process: numbers, each open to an open file or not. A new descriptor is
the lowest one that is not open, below a limit on their number (`lowest?`).
-/

set_option autoImplicit false

namespace Memory

/-- The files behind the descriptors of a process. -/
abbrev Descriptors (φ : Type) : Type := ℕ → Option φ

namespace Descriptors

variable {φ : Type}

/-- No descriptor is open. -/
def empty : Descriptors φ := fun _ => none

/-- The descriptor `fd` is opened to a file. -/
def install (t : Descriptors φ) (fd : ℕ) (f : φ) : Descriptors φ :=
  Function.update t fd (some f)

/-- The descriptor `fd` is closed, if it is open. -/
def close (t : Descriptors φ) (fd : ℕ) : Descriptors φ := Function.update t fd none

/-- The lowest descriptor below the limit that is not open. -/
def lowest? (t : Descriptors φ) (limit : ℕ) : Option ℕ :=
  (List.range limit).find? fun fd => (t fd).isNone

variable {t : Descriptors φ} {fd fd' limit : ℕ} {f : φ}

@[simp] theorem install_self : t.install fd f fd = some f := Function.update_self ..

theorem install_of_ne (h : fd' ≠ fd) : t.install fd f fd' = t fd' := Function.update_of_ne h ..

@[simp] theorem close_self : t.close fd fd = none := Function.update_self ..

theorem close_of_ne (h : fd' ≠ fd) : t.close fd fd' = t fd' := Function.update_of_ne h ..

@[simp] theorem empty_apply : (empty : Descriptors φ) fd = none := rfl

/-- Closing a descriptor opens none. -/
theorem of_close_eq_some (h : t.close fd fd' = some f) : fd' ≠ fd ∧ t fd' = some f := by
  by_cases hfd : fd' = fd
  · subst hfd
    rw [close_self] at h
    cases h
  · exact ⟨hfd, (close_of_ne hfd).symm.trans h⟩

/-- The lowest descriptor that is not open. -/
theorem lowest?_eq_some_iff :
    t.lowest? limit = some fd ↔ fd < limit ∧ t fd = none ∧ ∀ j < fd, (t j).isSome := by
  unfold lowest?
  rw [List.find?_range_eq_some]
  simp only [Option.isNone_iff_eq_none, List.mem_range, Bool.not_eq_eq_eq_not, Bool.not_true,
    Option.isNone_eq_false_iff]
  tauto

/-- The first gap is the lowest descriptor. -/
theorem lowest?_eq_gap (h : t.lowest? limit = some fd) (hbelow : ∀ j < fd', (t j).isSome)
    (hgap : t fd' = none) : fd = fd' := by
  obtain ⟨-, hfree, hfirst⟩ := lowest?_eq_some_iff.mp h
  rcases Nat.lt_trichotomy fd fd' with hlt | heq | hlt
  · have hsome := hbelow fd hlt
    rw [hfree] at hsome
    cases hsome
  · exact heq
  · have hsome := hfirst fd' hlt
    rw [hgap] at hsome
    cases hsome

end Descriptors

end Memory
