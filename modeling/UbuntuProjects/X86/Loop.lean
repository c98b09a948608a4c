import Mathlib.Data.Nat.Notation

/-!
# Loops of assembly code

A loop is the function of one turn, from a label to the jump back to it. It is given `fuel`,
the number of turns it may take, and returns nothing if it is still running then.
-/

set_option autoImplicit false

namespace X86

variable {σ ρ : Type}

/-- The end of a turn: out of the loop, or back to its label. -/
inductive Turn (σ ρ : Type) : Type where
  | leave (r : ρ)
  | again (s : σ)

/-- At most `fuel` turns; a turn that runs out of fuel itself returns nothing. -/
def loop (turn : σ → Option (Turn σ ρ)) : ℕ → σ → Option ρ
  | 0, _ => none
  | fuel + 1, s =>
    match turn s with
    | none => none
    | some (.leave r) => some r
    | some (.again s) => loop turn fuel s

variable {turn : σ → Option (Turn σ ρ)} {s s' : σ} {r : ρ} {fuel : ℕ}

theorem loop_leave (h : turn s = some (.leave r)) : loop turn (fuel + 1) s = some r := by
  unfold loop
  rw [h]

theorem loop_again (h : turn s = some (.again s')) :
    loop turn (fuel + 1) s = loop turn fuel s' := by
  rw [loop, h]

/-- **A number of turns.** As long as each turn keeps the invariant for its number and goes
on, `k` turns lead to a state with the invariant for `k`. -/
theorem loop_run {Inv : ℕ → σ → Prop} {k : ℕ} (hs : Inv 0 s)
    (hturn : ∀ i s, i < k → Inv i s → ∃ s', turn s = some (.again s') ∧ Inv (i + 1) s') :
    ∃ s', Inv k s' ∧ ∀ fuel, loop turn (k + fuel) s = loop turn fuel s' := by
  induction k with
  | zero => exact ⟨s, hs, fun fuel => by rw [Nat.zero_add]⟩
  | succ k ih =>
    obtain ⟨s₁, hs₁, hrun⟩ := ih fun i s hi => hturn i s (Nat.lt_succ_of_lt hi)
    obtain ⟨s₂, hagain, hs₂⟩ := hturn k s₁ (Nat.lt_succ_self k) hs₁
    refine ⟨s₂, hs₂, ?_⟩
    intro fuel
    rw [Nat.add_right_comm, Nat.add_assoc, hrun, loop_again hagain]

/-- **No end.** As long as each turn keeps the invariant and goes on, no number of turns is
enough. -/
theorem loop_never (Inv : σ → Prop)
    (hturn : ∀ s, Inv s → ∃ s', turn s = some (.again s') ∧ Inv s') (hs : Inv s) :
    loop turn fuel s = none := by
  induction fuel generalizing s with
  | zero => rfl
  | succ fuel ih =>
    obtain ⟨s', hagain, hs'⟩ := hturn s hs
    rw [loop_again hagain]
    exact ih hs'

/-- **Total correctness.** Each turn keeps the invariant and lowers the rank, or leaves the
loop with a result that is right. -/
theorem loop_total (Inv : σ → Prop) (rank : σ → ℕ) {Post : ρ → Prop}
    (hturn : ∀ s, Inv s →
      (∃ r, turn s = some (.leave r) ∧ Post r) ∨
        ∃ s', turn s = some (.again s') ∧ Inv s' ∧ rank s' < rank s)
    (hs : Inv s) (hfuel : rank s < fuel) : ∃ r, loop turn fuel s = some r ∧ Post r := by
  induction fuel generalizing s with
  | zero => exact absurd hfuel (Nat.not_lt_zero _)
  | succ fuel ih =>
    rcases hturn s hs with ⟨r, hleave, hr⟩ | ⟨s', hagain, hs', hrank⟩
    · exact ⟨r, loop_leave hleave, hr⟩
    · rw [loop_again hagain]
      exact ih hs' (by omega)

end X86
