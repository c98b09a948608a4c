import UbuntuProjects.Model.MoveStrings

/-!
# The place of the first difference

`compare1` counts with `loop` and `compare2` with `repe cmpsb`; the `dec` at `notequal` makes
up for the byte that `loop` has not counted, so they return the same. It is the place of the
difference for as many bytes as `len2` tells, and off by what the count differs from it.
-/

set_option autoImplicit false

namespace UbuntuProjects.MoveStrings

open Memory X86

variable {m : Mem} {rdi rsi n i fuel : ℕ} {rdx : BitVec 64}

/-! ## `compare1` -/

/-- The registers of `compare1` behind `i` bytes that are the same. -/
structure Reached (rdi rsi n i : ℕ) (s : BitVec 64 × Comparing) : Prop where
  rcx : s.1.toNat = n - i
  rsi : s.2.rsi = rsi + i
  rdi : s.2.rdi = rdi + i

/-- INTERNAL: the bytes in front of a place. -/
theorem compare1_run (hi : i < rdx.toNat) (h : SameFor m rsi rdi i) :
    ∃ s, Reached rdi rsi rdx.toNat i s ∧
      ∀ fuel, loop (cmpr m) (i + fuel) (rdx, ⟨rsi, rdi⟩) = loop (cmpr m) fuel s := by
  apply loop_run
  · exact ⟨rfl, rfl, rfl⟩
  · rintro j ⟨rcx, t⟩ hj ⟨hrcx, hrsi, hrdi⟩
    dsimp only at hrcx hrsi hrdi
    have hsame : m t.rsi = m t.rdi := by
      rw [hrsi, hrdi]
      exact h j hj
    have hmore : turnsOf rcx = rdx.toNat - j - 2 + 2 := by
      rw [turnsOf_of_pos (by omega), hrcx]
      omega
    unfold cmpr
    dsimp only
    rw [if_neg (not_not.mpr hsame), (loopRcx_again hmore).1]
    refine ⟨_, rfl, ?_, congrArg (· + 1) hrsi, congrArg (· + 1) hrdi⟩
    dsimp only
    rw [toNat_sub_one (by omega), hrcx]
    omega

/-- INTERNAL: `compare1` at a difference. -/
theorem compare1_differ (hi : i < rdx.toNat) (hfuel : i < fuel) (h : FirstDiffer m rsi rdi i) :
    compare1 fuel m rdi rsi rdx = some (len2 - BitVec.ofNat 64 (rdx.toNat - (i + 1))) := by
  obtain ⟨⟨rcx, t⟩, ⟨hrcx, hrsi, hrdi⟩, hrun⟩ := compare1_run hi h.same
  dsimp only at hrcx hrsi hrdi
  obtain ⟨turns, rfl⟩ := Nat.exists_eq_add_of_lt hfuel
  have hne : m t.rsi ≠ m t.rdi := by
    rw [hrsi, hrdi]
    exact h.differ
  have hleave : cmpr m (rcx, t) = some (.leave (notequal rcx)) := if_pos hne
  unfold compare1
  rw [Nat.add_assoc, hrun, loop_leave hleave]
  unfold notequal
  dsimp only
  congr 2
  apply BitVec.eq_of_toNat_eq
  have hlt := rdx.isLt
  rw [toNat_sub_one (by omega), hrcx, BitVec.toNat_ofNat]
  omega

/-- INTERNAL: `compare1` for bytes that are the same. -/
theorem compare1_same (hn : 1 ≤ rdx.toNat) (hfuel : rdx.toNat ≤ fuel)
    (h : SameFor m rsi rdi rdx.toNat) : compare1 fuel m rdi rsi rdx = some 0 := by
  have hlast : rdx.toNat - 1 < rdx.toNat := by omega
  obtain ⟨⟨rcx, t⟩, ⟨hrcx, hrsi, hrdi⟩, hrun⟩ :=
    compare1_run hlast fun j hj => h j (Nat.lt_trans hj hlast)
  dsimp only at hrcx hrsi hrdi
  obtain ⟨turns, rfl⟩ := Nat.exists_eq_add_of_lt (Nat.lt_of_lt_of_le hlast hfuel)
  have hsame : m t.rsi = m t.rdi := by
    rw [hrsi, hrdi]
    exact h _ hlast
  have hone : turnsOf rcx = 1 := by
    rw [turnsOf_of_pos (by omega), hrcx]
    omega
  have hleave : cmpr m (rcx, t) = some (.leave 0) := by
    unfold cmpr
    dsimp only
    rw [if_neg (not_not.mpr hsame), loopRcx_last hone]
  unfold compare1
  rw [Nat.add_assoc, hrun, loop_leave hleave]

/-! ## Both -/

/-- INTERNAL: `compare2` at a difference. -/
theorem compare2_differ (zf : Bool) (hi : i < rdx.toNat) (h : FirstDiffer m rsi rdi i) :
    compare2 m rdi rsi rdx zf = len2 - BitVec.ofNat 64 (rdx.toNat - (i + 1)) := by
  unfold compare2
  rw [repeCmpsb_differ zf hi h]
  rfl

/-- INTERNAL: `compare2` for bytes that are the same. -/
theorem compare2_same (zf : Bool) (hn : 1 ≤ rdx.toNat) (h : SameFor m rsi rdi rdx.toNat) :
    compare2 m rdi rsi rdx zf = 0 := by
  obtain ⟨k, hk⟩ := Nat.exists_eq_add_of_le' hn
  unfold compare2
  rw [hk] at h ⊢
  rw [repeCmpsb_same zf h]
  rfl

/-- **The two comparisons agree**, right or not. -/
theorem compare1_eq_compare2 (m : Mem) (rdi rsi : ℕ) (zf : Bool) (hn : 1 ≤ rdx.toNat) :
    compare1 rdx.toNat m rdi rsi rdx = some (compare2 m rdi rsi rdx zf) := by
  rcases sameFor_or_differ m rsi rdi rdx.toNat with hsame | ⟨i, hi, hdiffer⟩
  · rw [compare1_same hn (Nat.le_refl _) hsame, compare2_same zf hn hsame]
  · rw [compare1_differ hi hi hdiffer, compare2_differ zf hi hdiffer]

/-- The right result: zero for bytes that are the same, else the place of the first difference,
counted from 1. -/
structure Position (m : Mem) (rdi rsi n : ℕ) (rax : BitVec 64) : Prop where
  same : SameFor m rsi rdi n → rax = 0
  differ : ∀ i, i < n → FirstDiffer m rsi rdi i → rax.toNat = i + 1

/-- INTERNAL: the place that is returned. -/
theorem toNat_place (hi : i < rdx.toNat) :
    (len2 - BitVec.ofNat 64 (rdx.toNat - (i + 1))).toNat = i + 1 ↔ rdx = len2 := by
  have hlt := rdx.isLt
  have hlen : len2.toNat = 23 := by decide
  rw [BitVec.toNat_sub, BitVec.toNat_ofNat, hlen, ← BitVec.toNat_inj, hlen]
  omega

/-- **What the comparisons return.** They return the same, and the place of the first
difference exactly when there is none or `rdx` is `len2`. -/
theorem compare_position_iff (m : Mem) (rdi rsi : ℕ) (rdx : BitVec 64) (hn : 1 ≤ rdx.toNat)
    (zf : Bool) :
    (compare1 rdx.toNat m rdi rsi rdx = some (compare2 m rdi rsi rdx zf) ∧
        Position m rdi rsi rdx.toNat (compare2 m rdi rsi rdx zf)) ↔
      SameFor m rsi rdi rdx.toNat ∨ rdx = len2 := by
  constructor
  · rintro ⟨-, h⟩
    rcases sameFor_or_differ m rsi rdi rdx.toNat with hsame | ⟨i, hi, hdiffer⟩
    · exact Or.inl hsame
    · have hplace := h.differ i hi hdiffer
      rw [compare2_differ zf hi hdiffer, toNat_place hi] at hplace
      exact Or.inr hplace
  · intro h
    refine ⟨compare1_eq_compare2 m rdi rsi zf hn, compare2_same zf hn, ?_⟩
    intro i hi hdiffer
    rcases h with hsame | hlen
    · exact absurd (hsame i hi) hdiffer.differ
    · rw [compare2_differ zf hi hdiffer, toNat_place hi]
      exact hlen

/-- Strings of `len2` bytes that differ in the fifth. -/
theorem compare_position_iff_fifth :
    ∃ m : Mem, m 4 ≠ m 36 ∧
      compare1 23 m 0 32 len2 = some (compare2 m 0 32 len2 false) ∧
      Position m 0 32 23 (compare2 m 0 32 len2 false) := by
  let m : Mem := fun i => if i = 36 then 1 else 0
  exact ⟨m, by decide, (compare_position_iff m 0 32 len2 (by decide) false).mpr (Or.inr rfl)⟩

/-- One byte that differs: its place is 1, and both return `len2`. -/
theorem compare_returns_len2 :
    ∃ m : Mem, m 0 = 97 ∧ m 1 = 98 ∧ compare1 1 m 0 1 1 = some 23 ∧
      compare2 m 0 1 1 false = 23 ∧ ¬Position m 0 1 1 23 := by
  refine ⟨fun i => if i = 0 then 97 else 98, rfl, rfl, by decide, by decide, ?_⟩
  intro h
  have hplace := h.differ 0 Nat.one_pos ⟨by decide, fun i hi => absurd hi (Nat.not_lt_zero i)⟩
  exact absurd hplace (by decide)

end UbuntuProjects.MoveStrings
