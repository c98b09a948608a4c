import Mathlib.Tactic.Ring
import UbuntuProjects.Model.AsmInC

/-!
# The counted loops of the array routines

Each loop takes `turnsOf rcx` turns (`counted_run`), so a length of zero makes `2^64` of them;
`asum` counts its first number apart and does the same for a length of one.
-/

set_option autoImplicit false

namespace UbuntuProjects.AsmInC

open Memory X86

/-! ## `sreverse` -/

section Reversing

variable {m : Mem} {p n : ℕ} {rsi : BitVec 64}

/-- INTERNAL: the byte at an address is the low byte of the word there. -/
theorem low_byte (m : Mem) (a : ℕ) :
    UInt8.ofNat (ofLittleEndian (Memory.read m a 8)) = m a := by
  have hread : Memory.read m a 8 = m a :: Memory.read m (a + 1) 7 := by
    unfold Memory.read
    rw [List.range_succ_eq_map, List.map_cons, List.map_map]
    rfl
  have hlt := (m a).toNat_lt
  rw [hread, ofLittleEndian]
  apply UInt8.toNat_inj.mp
  rw [UInt8.toNat_ofNat']
  omega

/-- The words pushed in `n` turns, the last one on top. -/
def pushed (m : Mem) (p n : ℕ) : List ℕ :=
  ((List.range n).map fun i => ofLittleEndian (Memory.read m (p + i) 8)).reverse

/-- INTERNAL: one more word. -/
theorem pushed_succ (m : Mem) (p n : ℕ) :
    pushed m p (n + 1) = ofLittleEndian (Memory.read m (p + n) 8) :: pushed m p n := by
  unfold pushed
  rw [List.range_succ, List.map_append, List.reverse_append]
  rfl

/-- INTERNAL: the word that is popped in turn `i`. -/
theorem drop_pushed (m : Mem) (p : ℕ) {n i : ℕ} (hi : i < n) :
    (pushed m p n).drop i =
      ofLittleEndian (Memory.read m (p + (n - 1 - i)) 8) :: (pushed m p n).drop (i + 1) := by
  have hlen : i < (pushed m p n).length := by
    unfold pushed
    rwa [List.length_reverse, List.length_map, List.length_range]
  have hget : (pushed m p n)[i] = ofLittleEndian (Memory.read m (p + (n - 1 - i)) 8) := by
    simp only [pushed, List.getElem_reverse, List.getElem_map, List.getElem_range,
      List.length_map, List.length_range]
  rw [List.drop_eq_getElem_cons hlen, hget]

/-- What the pushes have done in `i` turns. -/
structure Pushed (m : Mem) (p i : ℕ) (s : Pushing) : Prop where
  r12 : s.r12 = i
  stack : s.stack = pushed m p i

/-- INTERNAL: one push. -/
theorem Pushed.step {i : ℕ} {s : Pushing} (hs : Pushed m p i s) (rcx : BitVec 64) :
    ∃ s', pushloop m p (rcx, s) = some (loopRcx rcx s' s'.stack) ∧ Pushed m p (i + 1) s' := by
  refine ⟨_, rfl, congrArg (· + 1) hs.r12, ?_⟩
  dsimp only
  rw [hs.stack, hs.r12, pushed_succ]

/-- INTERNAL: the pushes. -/
theorem pushloop_run (m : Mem) (p : ℕ) (rsi : BitVec 64) :
    ∃ s, Pushed m p (turnsOf rsi) s ∧
      ∀ fuel, loop (pushloop m p) fuel (rsi, ⟨[], 0⟩) =
        if turnsOf rsi ≤ fuel then some s.stack else none := by
  apply counted_run Pushing.stack (Pushed m p)
  · exact ⟨rfl, rfl⟩
  · intro i rcx s _ hs
    exact hs.step rcx

/-- What the pops have done in `i` turns. -/
structure Popped (m : Mem) (p n i : ℕ) (s : Popping) : Prop where
  r12 : s.r12 = i
  stack : s.stack = (pushed m p n).drop i
  bytes : ∀ j, j < i → s.store.mem (p + j) = m (p + (n - 1 - j))
  written : ∀ x ∈ s.store.written, p ≤ x ∧ x < p + i

/-- INTERNAL: one pop. -/
theorem Popped.step {i : ℕ} {s : Popping} (hs : Popped m p n i s) (hi : i < n)
    (rcx : BitVec 64) :
    ∃ s', poploop p (rcx, s) = some (loopRcx rcx s' s'.store) ∧ Popped m p n (i + 1) s' := by
  have hstack := hs.stack.trans (drop_pushed m p hi)
  unfold poploop
  dsimp only
  rw [hstack]
  refine ⟨_, rfl, congrArg (· + 1) hs.r12, rfl, ?_, ?_⟩
  · intro j hj
    dsimp only
    rw [low_byte, hs.r12]
    rcases Nat.lt_succ_iff_lt_or_eq.mp hj with hlt | rfl
    · rw [Tracked.store_byte_of_ne (by omega)]
      exact hs.bytes j hlt
    · exact Tracked.store_byte_self
  · intro x hx
    dsimp only at hx
    rcases Tracked.mem_written_store_byte.mp hx with hx | rfl
    · have := hs.written x hx
      omega
    · rw [hs.r12]
      omega

/-- INTERNAL: the pops. -/
theorem poploop_run (m : Mem) (p : ℕ) (rsi : BitVec 64) :
    ∃ s, Popped m p (turnsOf rsi) (turnsOf rsi) s ∧
      ∀ fuel, loop (poploop p) fuel (rsi, ⟨pushed m p (turnsOf rsi), 0, ⟨m, []⟩⟩) =
        if turnsOf rsi ≤ fuel then some s.store else none := by
  apply counted_run Popping.store (Popped m p (turnsOf rsi))
  · exact ⟨rfl, rfl, fun j hj => absurd hj (Nat.not_lt_zero j),
      fun x hx => absurd hx List.not_mem_nil⟩
  · intro i rcx s hi hs
    exact hs.step hi rcx

/-- INTERNAL: the turns of both loops, and the bytes in the end. -/
theorem sreverse_run (m : Mem) (p : ℕ) (rsi : BitVec 64) :
    ∃ s, Popped m p (turnsOf rsi) (turnsOf rsi) s ∧
      ∀ fuel, sreverse fuel m p rsi = if turnsOf rsi ≤ fuel then some s.store else none := by
  obtain ⟨s, hs, hpush⟩ := pushloop_run m p rsi
  obtain ⟨s', hs', hpop⟩ := poploop_run m p rsi
  refine ⟨s', hs', ?_⟩
  intro fuel
  unfold sreverse
  rw [hpush]
  by_cases hle : turnsOf rsi ≤ fuel
  · rw [if_pos hle, Option.bind_eq_bind, Option.bind_some, hs.stack, hpop, if_pos hle]
  · rw [if_neg hle, if_neg hle]
    rfl

end Reversing

/-- `sreverse` takes a turn of each loop for each byte, reverses them and writes nothing else. -/
structure Reverses (m : Mem) (p : ℕ) (rsi : BitVec 64) : Prop where
  turns : ∀ fuel, fuel < rsi.toNat → sreverse fuel m p rsi = none
  ends : ∃ t, sreverse rsi.toNat m p rsi = some t ∧
    Memory.read t.mem p rsi.toNat = (Memory.read m p rsi.toNat).reverse ∧
    ∀ x ∈ t.written, p ≤ x ∧ x < p + rsi.toNat

/-- INTERNAL: every length but zero. -/
theorem reverses_iff (m : Mem) (p : ℕ) (rsi : BitVec 64) :
    Reverses m p rsi ↔ 1 ≤ rsi.toNat := by
  obtain ⟨s, hs, hrun⟩ := sreverse_run m p rsi
  constructor
  · intro h
    obtain ⟨t, ht, -⟩ := h.ends
    exact pos_of_returns hrun ht
  · intro hpos
    have hturns := turnsOf_of_pos hpos
    rw [hturns] at hs hrun
    refine ⟨fun fuel hlt => ?_, _, (hrun _).trans (if_pos (Nat.le_refl _)), ?_, hs.written⟩
    · rw [hrun, if_neg (by omega)]
    · apply List.ext_getElem
      · rw [List.length_reverse, length_read, length_read]
      · intro j hj _
        rw [length_read] at hj
        rw [getElem_read, List.getElem_reverse, getElem_read, length_read, hs.bytes j hj]

/-! ## `adouble` -/

/-- What `adouble` has done in `i` turns. -/
structure Doubled (p : ℕ → ℚ) (i : ℕ) (s : Doubling) : Prop where
  r12 : s.r12 = i
  val : ∀ j, s.doubles.val j = if j < i then 2 * p j else p j
  loaded : s.doubles.loaded = List.range i
  stored : s.doubles.stored = List.range i

/-- INTERNAL: one number. -/
theorem Doubled.step {p : ℕ → ℚ} {i : ℕ} {s : Doubling} (hs : Doubled p i s)
    (rcx : BitVec 64) :
    ∃ s', aloop (rcx, s) = some (loopRcx rcx s' s'.doubles) ∧ Doubled p (i + 1) s' := by
  refine ⟨_, rfl, congrArg (· + 1) hs.r12, ?_, ?_, ?_⟩
  · intro j
    unfold Doubles.store Doubles.load
    dsimp only
    rw [hs.r12]
    by_cases hj : j = i
    · subst hj
      rw [Function.update_self, hs.val, if_neg (Nat.lt_irrefl j), if_pos (Nat.lt_succ_self j)]
      ring
    · rw [Function.update_of_ne hj, hs.val]
      by_cases hlt : j < i
      · rw [if_pos hlt, if_pos (Nat.lt_succ_of_lt hlt)]
      · rw [if_neg hlt, if_neg (by omega)]
  · show s.doubles.loaded ++ [s.r12] = _
    rw [hs.loaded, hs.r12, List.range_succ]
  · show s.doubles.stored ++ [s.r12] = _
    rw [hs.stored, hs.r12, List.range_succ]

/-- INTERNAL: the turns of the loop, and the numbers in the end. -/
theorem adouble_run (p : ℕ → ℚ) (rsi : BitVec 64) :
    ∃ s, Doubled p (turnsOf rsi) s ∧
      ∀ fuel, adouble fuel p rsi =
        if turnsOf rsi ≤ fuel then some s.doubles else none := by
  apply counted_run Doubling.doubles (Doubled p)
  · exact ⟨rfl, fun j => (if_neg (Nat.not_lt_zero j)).symm, rfl, rfl⟩
  · intro i rcx s _ hs
    exact hs.step rcx

/-- `adouble` takes a turn for each number, doubles them and touches nothing else. -/
structure DoublesArray (p : ℕ → ℚ) (rsi : BitVec 64) : Prop where
  turns : ∀ fuel, fuel < rsi.toNat → adouble fuel p rsi = none
  ends : ∃ d, adouble rsi.toNat p rsi = some d ∧ (∀ i, i < rsi.toNat → d.val i = 2 * p i) ∧
    (∀ i ∈ d.stored, i < rsi.toNat) ∧ ∀ i ∈ d.loaded, i < rsi.toNat

/-- INTERNAL: every length but zero. -/
theorem doublesArray_iff (p : ℕ → ℚ) (rsi : BitVec 64) :
    DoublesArray p rsi ↔ 1 ≤ rsi.toNat := by
  obtain ⟨s, hs, hrun⟩ := adouble_run p rsi
  constructor
  · intro h
    obtain ⟨d, hd, -⟩ := h.ends
    exact pos_of_returns hrun hd
  · intro hpos
    have hturns := turnsOf_of_pos hpos
    rw [hturns] at hs hrun
    refine ⟨fun fuel hlt => ?_, _, (hrun _).trans (if_pos (Nat.le_refl _)), ?_, ?_, ?_⟩
    · rw [hrun, if_neg (by omega)]
    · intro i hi
      rw [hs.val, if_pos hi]
    · rw [hs.stored]
      exact fun i => List.mem_range.mp
    · rw [hs.loaded]
      exact fun i => List.mem_range.mp

/-! ## `asum` -/

/-- What `asum` has done in `i` turns. -/
structure Summed (p : ℕ → ℚ) (i : ℕ) (s : Summing) : Prop where
  r12 : s.r12 = i
  xmm0 : s.xmm0 = ((List.range (i + 1)).map p).sum
  val : s.doubles.val = p
  loaded : s.doubles.loaded = List.range (i + 1)
  stored : s.doubles.stored = []

/-- INTERNAL: one more number. -/
theorem Summed.step {p : ℕ → ℚ} {i : ℕ} {s : Summing} (hs : Summed p i s)
    (rcx : BitVec 64) :
    ∃ s', sloop (rcx, s) = some (loopRcx rcx s' s') ∧ Summed p (i + 1) s' := by
  refine ⟨_, rfl, congrArg (· + 1) hs.r12, ?_, hs.val, ?_, hs.stored⟩
  · dsimp only
    rw [hs.xmm0, hs.val, hs.r12, List.range_succ (n := i + 1), List.map_append, List.sum_append,
      List.map_singleton, List.sum_singleton]
  · show s.doubles.loaded ++ [s.r12 + 1] = _
    rw [hs.loaded, hs.r12, List.range_succ (n := i + 1)]

/-- INTERNAL: the turns of the loop, and the sum in the end. -/
theorem asum_run (p : ℕ → ℚ) (rsi : BitVec 64) :
    ∃ s, Summed p (turnsOf (rsi - 1)) s ∧
      ∀ fuel, asum fuel p rsi = if turnsOf (rsi - 1) ≤ fuel then some s else none := by
  apply counted_run id (Summed p)
  · refine ⟨rfl, ?_, rfl, rfl, rfl⟩
    show p 0 = [p 0].sum
    rw [List.sum_singleton]
  · intro i rcx s _ hs
    exact hs.step rcx

/-- `asum` ends with the sum of the numbers and touches nothing else. -/
structure SumsArray (p : ℕ → ℚ) (rsi : BitVec 64) : Prop where
  ends : ∃ fuel s, asum fuel p rsi = some s ∧
    s.xmm0 = ((List.range rsi.toNat).map p).sum ∧
    s.doubles.stored = [] ∧ ∀ i ∈ s.doubles.loaded, i < rsi.toNat

/-- INTERNAL: the first number is added before the loop, and the loop adds one at least. -/
theorem sumsArray_iff (p : ℕ → ℚ) (rsi : BitVec 64) : SumsArray p rsi ↔ 2 ≤ rsi.toNat := by
  obtain ⟨s, hs, hrun⟩ := asum_run p rsi
  constructor
  · intro h
    obtain ⟨fuel, r, hr, -, -, hloaded⟩ := h.ends
    rw [hrun] at hr
    by_cases hle : turnsOf (rsi - 1) ≤ fuel
    · rw [if_pos hle] at hr
      rw [← Option.some.inj hr, hs.loaded] at hloaded
      have hturns := turnsOf_pos (rsi - 1)
      exact hloaded 1 (List.mem_range.mpr (by omega))
    · rw [if_neg hle] at hr
      exact absurd hr.symm (Option.some_ne_none r)
  · intro htwo
    have hrest := toNat_sub_one (show 1 ≤ rsi.toNat by omega)
    have hturns := turnsOf_of_pos (show 1 ≤ (rsi - 1).toNat by omega)
    have hall : turnsOf (rsi - 1) + 1 = rsi.toNat := by omega
    refine ⟨_, s, (hrun _).trans (if_pos (Nat.le_refl _)), ?_, hs.stored, ?_⟩
    · rw [hs.xmm0, hall]
    · rw [hs.loaded, hall]
      exact fun i => List.mem_range.mp

/-! ## All three -/

/-- **The counted loops.** `sreverse` and `adouble` are right exactly for the lengths from one
on, and `asum` for those from two on. -/
theorem array_routines_iff (m : Mem) (p : ℕ) (d : ℕ → ℚ) (n : BitVec 64) :
    (Reverses m p n ↔ 1 ≤ n.toNat) ∧ (DoublesArray d n ↔ 1 ≤ n.toNat) ∧
      (SumsArray d n ↔ 2 ≤ n.toNat) :=
  ⟨reverses_iff m p n, doublesArray_iff d n, sumsArray_iff d n⟩

/-- An empty string is not left alone in no turns but reversed in `2^64`, and the sum of one
number is not found. -/
theorem array_routines_short :
    ¬Reverses (fun _ => 0) 0 0 ∧ ¬DoublesArray (fun _ => 0) 0 ∧ ¬SumsArray (fun _ => 1) 1 := by
  rw [reverses_iff, doublesArray_iff, sumsArray_iff]
  decide

end UbuntuProjects.AsmInC
