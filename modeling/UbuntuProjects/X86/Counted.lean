import UbuntuProjects.Memory.Bytes
import UbuntuProjects.X86.Loop

/-!
# Instructions that count in `rcx`

`loop` decrements `rcx` and jumps unless it is zero then. A loop that ends with it takes as
many turns as `rcx` holds, and `2^64` where that is zero.

`repe cmpsb` looks at `rcx` before each comparison, and has decremented it when it stops.
-/

set_option autoImplicit false

namespace X86

variable {σ ρ : Type}

/-- The jump with the rest `s` of the state, or the result `r` behind the loop. -/
def loopRcx (rcx : BitVec 64) (s : σ) (r : ρ) : Turn (BitVec 64 × σ) ρ :=
  if rcx - 1 = 0 then .leave r else .again (rcx - 1, s)

/-- The number of turns. -/
def turnsOf (rcx : BitVec 64) : ℕ := (rcx - 1).toNat + 1

section Turns

variable {rcx : BitVec 64} {s : σ} {r : ρ}

/-- INTERNAL: one less in a register that is not zero. -/
theorem toNat_sub_one (h : 1 ≤ rcx.toNat) : (rcx - 1).toNat = rcx.toNat - 1 :=
  BitVec.toNat_sub_of_le (BitVec.le_def.mpr h)

theorem turnsOf_of_pos (h : 1 ≤ rcx.toNat) : turnsOf rcx = rcx.toNat := by
  unfold turnsOf
  rw [toNat_sub_one h]
  omega

theorem turnsOf_pos (rcx : BitVec 64) : 1 ≤ turnsOf rcx := Nat.succ_le_succ (Nat.zero_le _)

/-- The last turn. -/
theorem loopRcx_last (h : turnsOf rcx = 1) : loopRcx rcx s r = .leave r := by
  apply if_pos
  apply BitVec.eq_of_toNat_eq
  exact Nat.succ.inj h

/-- A turn that is not the last. -/
theorem loopRcx_again {k : ℕ} (h : turnsOf rcx = k + 2) :
    loopRcx rcx s r = .again (rcx - 1, s) ∧ turnsOf (rcx - 1) = k + 1 := by
  have hrcx : (rcx - 1).toNat = k + 1 := Nat.succ.inj h
  constructor
  · apply if_neg
    intro hzero
    rw [hzero] at hrcx
    exact absurd hrcx.symm (Nat.succ_ne_zero k)
  · rw [turnsOf_of_pos (by omega), hrcx]

end Turns

/-- **A counted loop.** If every turn keeps the invariant for its number and ends with `loop`,
the loop takes the turns that `rcx` tells, neither more nor less. -/
theorem counted_run {turn : BitVec 64 × σ → Option (Turn (BitVec 64 × σ) ρ)} (result : σ → ρ)
    (Inv : ℕ → σ → Prop) {rcx : BitVec 64} {s : σ} (hs : Inv 0 s)
    (hturn : ∀ i rcx' s, i < turnsOf rcx → Inv i s →
      ∃ s', turn (rcx', s) = some (loopRcx rcx' s' (result s')) ∧ Inv (i + 1) s') :
    ∃ s', Inv (turnsOf rcx) s' ∧
      ∀ fuel, loop turn fuel (rcx, s) =
        if turnsOf rcx ≤ fuel then some (result s') else none := by
  generalize hk : turnsOf rcx = n at hturn ⊢
  obtain ⟨k, rfl⟩ := Nat.exists_eq_add_of_le' (hk ▸ turnsOf_pos rcx : 1 ≤ n)
  -- the turns that are left, with the number `i` of those taken
  suffices h : ∀ i rcx s, turnsOf rcx = k + 1 → Inv i s →
      (∀ j rcx' s, j < i + (k + 1) → Inv j s →
        ∃ s', turn (rcx', s) = some (loopRcx rcx' s' (result s')) ∧ Inv (j + 1) s') →
      ∃ s', Inv (i + (k + 1)) s' ∧
        ∀ fuel, loop turn fuel (rcx, s) = if k + 1 ≤ fuel then some (result s') else none by
    have hrun := h 0 rcx s hk hs (by rwa [Nat.zero_add])
    rwa [Nat.zero_add] at hrun
  clear hturn hs hk
  induction k with
  | zero =>
    intro i rcx s hk hs hturn
    obtain ⟨s', hlast, hs'⟩ := hturn i rcx s (by omega) hs
    rw [loopRcx_last hk] at hlast
    refine ⟨s', hs', ?_⟩
    intro fuel
    cases fuel with
    | zero => rfl
    | succ fuel => rw [loop_leave hlast, if_pos (by omega)]
  | succ k ih =>
    intro i rcx s hk hs hturn
    obtain ⟨s₁, hagain, hs₁⟩ := hturn i rcx s (by omega) hs
    obtain ⟨hjump, hk'⟩ := loopRcx_again (s := s₁) (r := result s₁) hk
    rw [hjump] at hagain
    obtain ⟨s', hs', hrun⟩ := ih (i + 1) (rcx - 1) s₁ hk' hs₁
      (fun j rcx' s hj => hturn j rcx' s (by omega))
    refine ⟨s', by rwa [show i + (k + 1 + 1) = i + 1 + (k + 1) by omega], ?_⟩
    intro fuel
    cases fuel with
    | zero => rfl
    | succ fuel =>
      rw [loop_again hagain, hrun]
      by_cases hle : k + 1 ≤ fuel
      · rw [if_pos hle, if_pos (by omega)]
      · rw [if_neg hle, if_neg (by omega)]

/-- A loop that returns in as many turns as `rcx` holds: that is not zero then. -/
theorem pos_of_returns {f : ℕ → Option ρ} {rcx : BitVec 64} {r r' : ρ}
    (hrun : ∀ fuel, f fuel = if turnsOf rcx ≤ fuel then some r else none)
    (h : f rcx.toNat = some r') : 1 ≤ rcx.toNat := by
  have hturns := turnsOf_pos rcx
  by_contra hzero
  rw [hrun, if_neg (by omega)] at h
  exact Option.some_ne_none r' h.symm

/-! ## Comparing bytes -/

section Bytes

open Memory

/-- The bytes from `a` and from `b` on are the same, as far as `n` of them go. -/
def SameFor (m : Mem) (a b n : ℕ) : Prop := ∀ i, i < n → m (a + i) = m (b + i)

/-- The first bytes that differ. -/
structure FirstDiffer (m : Mem) (a b i : ℕ) : Prop where
  differ : m (a + i) ≠ m (b + i)
  same : SameFor m a b i

/-- What `repe cmpsb` leaves in `rcx` and in ZF. -/
structure Compared where
  rcx : ℕ
  zf : Bool

/-- The addresses go up; ZF stays as it was where `rcx` is zero at the start. -/
def repeCmpsb (m : Mem) (rsi rdi : ℕ) : ℕ → Bool → Compared
  | 0, zf => ⟨0, zf⟩
  | rcx + 1, _ =>
    if m rsi = m rdi then repeCmpsb m (rsi + 1) (rdi + 1) rcx true else ⟨rcx, false⟩

variable {m : Mem} {a b n i : ℕ}

/-- INTERNAL: the bytes behind the first ones. -/
theorem sameFor_succ :
    SameFor m a b (n + 1) ↔ m a = m b ∧ SameFor m (a + 1) (b + 1) n := by
  constructor
  · intro h
    refine ⟨h 0 (Nat.succ_pos n), ?_⟩
    intro i hi
    rw [Nat.add_assoc, Nat.add_assoc, Nat.add_comm 1 i]
    exact h (i + 1) (Nat.succ_lt_succ hi)
  · rintro ⟨hfirst, h⟩ i hi
    cases i with
    | zero => exact hfirst
    | succ i =>
      have hrest := h i (Nat.lt_of_succ_lt_succ hi)
      rwa [Nat.add_assoc, Nat.add_assoc, Nat.add_comm 1 i] at hrest

/-- Bytes are the same, or there is a first difference. -/
theorem sameFor_or_differ (m : Mem) (a b n : ℕ) :
    SameFor m a b n ∨ ∃ i, i < n ∧ FirstDiffer m a b i := by
  induction n with
  | zero => exact Or.inl fun i hi => absurd hi (Nat.not_lt_zero i)
  | succ n ih =>
    rcases ih with hsame | ⟨i, hi, hdiffer⟩
    · by_cases hlast : m (a + n) = m (b + n)
      · apply Or.inl
        intro i hi
        rcases Nat.lt_succ_iff_lt_or_eq.mp hi with hlt | rfl
        · exact hsame i hlt
        · exact hlast
      · exact Or.inr ⟨n, Nat.lt_succ_self n, hlast, hsame⟩
    · exact Or.inr ⟨i, Nat.lt_succ_of_lt hi, hdiffer⟩

/-- **Bytes that are the same.** -/
theorem repeCmpsb_same (zf : Bool) (h : SameFor m a b (n + 1)) :
    repeCmpsb m a b (n + 1) zf = ⟨0, true⟩ := by
  induction n generalizing a b zf with
  | zero => rw [repeCmpsb, if_pos (sameFor_succ.mp h).1, repeCmpsb]
  | succ n ih =>
    rw [repeCmpsb, if_pos (sameFor_succ.mp h).1]
    exact ih true (sameFor_succ.mp h).2

/-- **The first bytes that differ** have been counted too. -/
theorem repeCmpsb_differ (zf : Bool) (hi : i < n) (h : FirstDiffer m a b i) :
    repeCmpsb m a b n zf = ⟨n - (i + 1), false⟩ := by
  obtain ⟨n, rfl⟩ := Nat.exists_eq_add_of_lt hi
  clear hi
  induction i generalizing a b zf with
  | zero =>
    have hne : m a ≠ m b := h.differ
    rw [repeCmpsb, if_neg hne, Nat.zero_add, Nat.add_sub_cancel]
  | succ i ih =>
    have hsame := sameFor_succ.mp h.same
    have hdiffer : FirstDiffer m (a + 1) (b + 1) i := by
      refine ⟨?_, hsame.2⟩
      rw [Nat.add_assoc, Nat.add_assoc, Nat.add_comm 1 i]
      exact h.differ
    rw [repeCmpsb, if_pos hsame.1, show i + 1 + n = i + n + 1 by omega,
      ih true hdiffer]
    congr 1
    omega

end Bytes

end X86
