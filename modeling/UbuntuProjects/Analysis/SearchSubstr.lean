import UbuntuProjects.Analysis.Shuffle

/-!
# What `psubstrsearch` counts

The comparison takes the beginning of the needle at the end of a block for an occurrence
(`marked`), whatever the next block holds. Behind the call of `pstrlen` stands a `push` in
place of a `pop` (search_substr.asm:64), so that `cl` is the index of the NUL in its block and
the search runs on where that is zero.
-/

set_option autoImplicit false

namespace UbuntuProjects.Shuffle

open X86 Memory

/-- The number of places at which `s` occurs in `t`. -/
def occurrences (s t : CString) : ℕ :=
  (List.range t.length).countP fun q => decide (s.bytes <+: t.bytes.drop q)

/-- What of `s` lies in the block of place `q` stands there. -/
def marked (s t : CString) (q : ℕ) : Bool :=
  decide (s.bytes.take (16 - q % 16) <+: t.bytes.drop q)

/-- The number of places where only the part of `s` up to the end of the block stands. -/
def falseStarts (s t : CString) : ℕ :=
  (List.range t.length).countP fun q => marked s t q && !decide (s.bytes <+: t.bytes.drop q)

variable {needle hay : CString} {m : Mem} {rdi rsi : ℕ}

/-- INTERNAL: the bits that the comparison sets. -/
theorem marks_needle (hay : CString) (hneedle : HoldsString m rsi needle) :
    Marks 0b01001100 (movdqu m rsi) hay (marked needle hay) := by
  intro k i
  have hwindow := implicitLength_movdqu hneedle (Nat.zero_le needle.length)
  rw [Nat.add_zero] at hwindow
  rw [hwindow, pcmpstr_ordered rfl rfl]
  unfold marked
  rw [show (16 * k + i.val) % 16 = i.val by omega]

/-- INTERNAL: nothing is marked from the NUL on. -/
theorem marked_behind (hpos : 0 < needle.length) {q : ℕ} (hq : hay.length ≤ q) :
    marked needle hay q = false := by
  unfold marked
  rw [decide_eq_false_iff_not, List.drop_eq_nil_of_le hq, List.prefix_nil,
    List.take_eq_nil_iff]
  rintro (h | h)
  · omega
  · rw [CString.length, h] at hpos
    exact absurd hpos (Nat.lt_irrefl 0)

/-- INTERNAL: the marks are the occurrences and the false starts. -/
theorem countP_marked (hpos : 0 < needle.length) {n : ℕ} (hn : hay.length ≤ n) :
    (List.range n).countP (marked needle hay) =
      occurrences needle hay + falseStarts needle hay := by
  obtain ⟨d, rfl⟩ := Nat.exists_eq_add_of_le hn
  have hbehind : ((List.range d).map (hay.length + ·)).countP (marked needle hay) = 0 := by
    apply List.countP_eq_zero.mpr
    intro q hq
    obtain ⟨j, -, rfl⟩ := List.mem_map.mp hq
    rw [marked_behind hpos (Nat.le_add_right _ _)]
    exact Bool.false_ne_true
  rw [List.range_add, List.countP_append, hbehind, Nat.add_zero,
    List.countP_eq_countP_filter_add _ _ fun q => decide (needle.bytes <+: hay.bytes.drop q),
    List.countP_filter, List.countP_filter]
  congr 1
  apply List.countP_congr
  intro q _
  -- an occurrence is marked, since its beginning stands there too
  simp only [Bool.and_eq_true, decide_eq_true_eq, marked]
  exact ⟨And.right, fun h => ⟨(List.take_prefix _ _).trans h, h⟩⟩

/-- INTERNAL: what the search does in the block with the NUL. -/
theorem psubstrsearch_last (hpos : 0 < needle.length) (hhay : HoldsString m rdi hay)
    (hneedle : HoldsString m rsi needle) :
    psubstrsearch (hay.length / 16) m rdi rsi = none ∧
      (hay.length % 16 ≠ 0 → ∃ r, psubstrsearch (hay.length / 16 + 1) m rdi rsi = some r ∧
        r.rax = (occurrences needle hay + falseStarts needle hay) % 2 ^ 32) ∧
      (hay.length % 16 = 0 → psubstrsearch (hay.length / 16 + 1) m rdi rsi = none) := by
  have hmarks := marks_needle hay hneedle
  have hcl : hay.length % 16 % 256 = hay.length % 16 := by omega
  unfold psubstrsearch
  refine ⟨?_, fun hmod => ?_, fun hmod => ?_⟩
  · obtain ⟨t, -, hrun⟩ := search_run (fun _ rcx => rcx) (hay.length / 16) hhay hmarks
    exact hrun 0
  · obtain ⟨t, ht, hrun⟩ := search_run (fun _ rcx => rcx) (hay.length / 16 + 1) hhay hmarks
    obtain ⟨r, hleave, hrax⟩ :=
      (searchTurn_last (fun _ rcx => rcx) hhay hmarks rfl (Nat.succ_pos _) ht).1 (by rwa [hcl])
    rw [countP_marked hpos (by omega)] at hrax
    exact ⟨r, (hrun 1).trans (loop_leave hleave), hrax⟩
  · obtain ⟨t, ht, hrun⟩ := search_run (fun _ rcx => rcx) (hay.length / 16 + 1) hhay hmarks
    obtain ⟨t', hagain⟩ :=
      (searchTurn_last (fun _ rcx => rcx) hhay hmarks rfl (Nat.succ_pos _) ht).2 (by rwa [hcl])
    exact (hrun 1).trans (loop_again hagain)

/-- **What `psubstrsearch` counts.** It ends with the block of the NUL and returns the number
of occurrences exactly when the NUL is not the first byte of its block and the false starts
vanish modulo `2^32`. -/
theorem psubstrsearch_counts_iff (needle hay : CString) (m : Mem) (rdi rsi : ℕ)
    (hpos : 0 < needle.length) (hhay : HoldsString m rdi hay)
    (hneedle : HoldsString m rsi needle) :
    (psubstrsearch (hay.length / 16) m rdi rsi = none ∧
      ∃ r, psubstrsearch (hay.length / 16 + 1) m rdi rsi = some r ∧
        r.rax = occurrences needle hay % 2 ^ 32) ↔
      hay.length % 16 ≠ 0 ∧ 2 ^ 32 ∣ falseStarts needle hay := by
  obtain ⟨hbefore, hodd, hfull⟩ := psubstrsearch_last hpos hhay hneedle
  by_cases hmod : hay.length % 16 = 0
  · rw [hfull hmod]
    constructor
    · rintro ⟨-, r, hr, -⟩
      exact absurd hr.symm (Option.some_ne_none r)
    · exact fun h => absurd hmod h.1
  · obtain ⟨r, hr, hrax⟩ := hodd hmod
    have hcount : r.rax = occurrences needle hay % 2 ^ 32 ↔ 2 ^ 32 ∣ falseStarts needle hay := by
      rw [hrax]
      omega
    constructor
    · rintro ⟨-, r', hr', hrax'⟩
      obtain rfl := Option.some.inj (hr.symm.trans hr')
      exact ⟨hmod, hcount.mp hrax'⟩
    · exact fun h => ⟨hbefore, r, hr, hcount.mpr h.2⟩

/-- A string that occurs in both blocks of a longer one. -/
theorem psubstrsearch_counts_blocks :
    ∃ m : Mem, psubstrsearch 1 m 0 20 = none ∧
      ∃ r, psubstrsearch 2 m 0 20 = some r ∧ r.rax = 2 := by
  let needle : CString := ⟨[97, 98], by decide⟩
  let hay : CString := ⟨[120, 97, 98] ++ List.replicate 14 120 ++ [97, 98], by decide⟩
  let m : Mem := fun i => (hay.bytes ++ [0] ++ needle.bytes).getD i 0
  have hcount := psubstrsearch_counts_iff needle hay m 0 20 (by decide) ⟨rfl, rfl⟩ ⟨rfl, rfl⟩
  rw [show hay.length / 16 = 1 by decide] at hcount
  obtain ⟨hbefore, r, hr, hrax⟩ := hcount.mpr ⟨by decide, by decide⟩
  exact ⟨m, hbefore, r, hr, hrax⟩

/-- Two bytes that do not occur are found: the first is the last one of a block. -/
theorem psubstrsearch_false_start :
    ∃ needle hay : CString, ∃ m : Mem, needle.bytes = [97, 98] ∧
      hay.bytes = List.replicate 15 120 ++ [97, 99] ∧ HoldsString m 0 hay ∧
      HoldsString m 18 needle ∧ occurrences needle hay = 0 ∧
      ∃ r, psubstrsearch 2 m 0 18 = some r ∧ r.rax = 1 := by
  let needle : CString := ⟨[97, 98], by decide⟩
  let hay : CString := ⟨List.replicate 15 120 ++ [97, 99], by decide⟩
  let m : Mem := fun i => (hay.bytes ++ [0] ++ needle.bytes).getD i 0
  have hhay : HoldsString m 0 hay := ⟨rfl, rfl⟩
  have hneedle : HoldsString m 18 needle := ⟨rfl, rfl⟩
  obtain ⟨r, hr, hrax⟩ := (psubstrsearch_last (by decide) hhay hneedle).2.1 (by decide)
  have hcount : occurrences needle hay = 0 ∧ falseStarts needle hay = 1 := by decide
  rw [show hay.length / 16 + 1 = 2 by decide] at hr
  rw [hcount.1, hcount.2] at hrax
  exact ⟨needle, hay, m, rfl, rfl, hhay, hneedle, hcount.1, r, hr, hrax⟩

end UbuntuProjects.Shuffle
