import UbuntuProjects.Analysis.Shuffle

/-!
# What `pcharsrch` and `prangesrch` count

Both look for two packed bytes, with equal any and with ranges. A bit of their mask depends
on one byte of the string only, so the count over all blocks is the count over the string;
the flag pushed in front of `pstrlen` ends them with the block of the NUL.
-/

set_option autoImplicit false

namespace UbuntuProjects.Shuffle

open X86 Memory

variable {m : Mem} {rdi rsi rdx fuel imm : ℕ} {s : CString} {test : UInt8 → Bool}

/-- INTERNAL: the register holds the string of the two bytes. -/
theorem implicitLength_packed (hx : m rsi ≠ 0) (hy : m rdx ≠ 0) :
    implicitLength 0 (packed m rsi rdx) = window [m rsi, m rdx] 0 := by
  apply implicitLength_register
  · intro h
    rcases List.mem_cons.mp h with h | h
    · exact hx h.symm
    · exact hy (List.mem_singleton.mp h).symm
  · intro i
    unfold packed pinsrb
    by_cases hi1 : i.val = 1
    · rw [if_pos hi1, hi1]
      rfl
    · rw [if_neg hi1]
      by_cases hi0 : i.val = 0
      · rw [if_pos hi0, hi0]
        rfl
      · rw [if_neg hi0, List.getD_eq_default]
        show 2 ≤ i.val
        omega

/-- INTERNAL: places are counted like the bytes at them. -/
theorem countP_range_getElem? (test : UInt8 → Bool) (l : List UInt8) {n : ℕ} (hn : l.length ≤ n) :
    (List.range n).countP (fun q => (l[q]?).any test) = l.countP test := by
  induction l generalizing n with
  | nil =>
    rw [List.countP_nil, List.countP_eq_zero]
    intro q _
    exact Bool.false_ne_true
  | cons b l ih =>
    cases n with
    | zero => exact absurd hn (Nat.not_succ_le_zero _)
    | succ n =>
      rw [List.range_succ_eq_map, List.countP_cons, List.countP_map, List.countP_cons,
        ← ih (Nat.le_of_succ_le_succ hn)]
      rfl

/-- **The count.** A search whose bits are a test of single bytes ends with the block of the
NUL and counts the bytes that pass. -/
theorem packedSearch_counts (hs : HoldsString m rdi s)
    (hmarks : Marks imm (packed m rsi rdx) s fun q => (s.bytes[q]?).any test)
    (hfuel : s.length / 16 < fuel) :
    (∃ r, packedSearch imm fuel m rdi rsi rdx = some r ∧
      r.rax = s.bytes.countP test % 2 ^ 32) ∧
      packedSearch imm (s.length / 16) m rdi rsi rdx = none := by
  constructor
  · obtain ⟨t, ht, hrun⟩ := search_run (fun pushed _ => pushed) fuel hs hmarks
    obtain ⟨r, hleave, hrax⟩ := (searchTurn_last (fun pushed _ => pushed) hs hmarks rfl
      (Nat.zero_lt_of_lt hfuel) ht).1 (by decide)
    obtain ⟨turns, rfl⟩ := Nat.exists_eq_add_of_lt hfuel
    refine ⟨r, (hrun (turns + 1)).trans (loop_leave hleave), ?_⟩
    have hlen : s.bytes.length ≤ 16 * (s.length / 16 + 1) := by
      rw [show s.bytes.length = s.length from rfl]
      omega
    rw [hrax, countP_range_getElem? test s.bytes hlen]
  · obtain ⟨t, -, hrun⟩ := search_run (fun pushed _ => pushed) (s.length / 16) hs hmarks
    exact hrun 0

/-- INTERNAL: the bits that `pcharsrch` counts. -/
theorem marks_pcharsrch (s : CString) (hx : m rsi ≠ 0) (hy : m rdx ≠ 0) :
    Marks 0b01000000 (packed m rsi rdx) s fun q =>
      (s.bytes[q]?).any fun b => decide (b = m rsi ∨ b = m rdx) := by
  intro k i
  rw [implicitLength_packed hx hy, pcmpstr_any rfl rfl (by simp)]
  simp only [List.mem_cons, List.not_mem_nil, or_false]

/-- INTERNAL: the bits that `prangesrch` counts. -/
theorem marks_prangesrch (s : CString) (hx : m rsi ≠ 0) (hy : m rdx ≠ 0) :
    Marks 0b01000100 (packed m rsi rdx) s fun q =>
      (s.bytes[q]?).any fun b => decide (m rsi ≤ b ∧ b ≤ m rdx) := by
  intro k i
  rw [implicitLength_packed hx hy, pcmpstr_ranges rfl rfl (by decide)]

/-- **The two counts.** `pcharsrch` counts the bytes equal to `x` or `y` and `prangesrch` those
between them, modulo `2^32`; both end with the block of the NUL and not before. -/
theorem packed_searches_count (s : CString) (x y : UInt8) (m : Mem) (rdi rsi rdx : ℕ)
    (hs : HoldsString m rdi s) (hrsi : m rsi = x) (hrdx : m rdx = y) (hx : x ≠ 0) (hy : y ≠ 0)
    (fuel : ℕ) (hfuel : s.length / 16 < fuel) :
    ((∃ r, pcharsrch fuel m rdi rsi rdx = some r ∧
        r.rax = s.bytes.countP (fun b => decide (b = x ∨ b = y)) % 2 ^ 32) ∧
      pcharsrch (s.length / 16) m rdi rsi rdx = none) ∧
      (∃ r, prangesrch fuel m rdi rsi rdx = some r ∧
        r.rax = s.bytes.countP (fun b => decide (x ≤ b ∧ b ≤ y)) % 2 ^ 32) ∧
      prangesrch (s.length / 16) m rdi rsi rdx = none := by
  subst hrsi hrdx
  exact ⟨packedSearch_counts hs (marks_pcharsrch s hx hy) hfuel,
    packedSearch_counts hs (marks_prangesrch s hx hy) hfuel⟩

/-- A string of two blocks: two of its bytes are counted, and one more lies between them. -/
theorem packed_searches_count_blocks :
    ∃ m : Mem, HoldsString m 0 ⟨97 :: (List.replicate 15 120 ++ [98, 99]), by decide⟩ ∧
      ((∃ r, pcharsrch 2 m 0 0 17 = some r ∧ r.rax = 2) ∧ pcharsrch 1 m 0 0 17 = none) ∧
      (∃ r, prangesrch 2 m 0 0 17 = some r ∧ r.rax = 3) ∧ prangesrch 1 m 0 0 17 = none := by
  let s : CString := ⟨97 :: (List.replicate 15 120 ++ [98, 99]), by decide⟩
  let m : Mem := fun i => (s.bytes ++ [0]).getD i 97
  have hs : HoldsString m 0 s := ⟨rfl, rfl⟩
  obtain ⟨⟨hchar, hchar'⟩, hrange, hrange'⟩ := packed_searches_count s 97 99 m 0 0 17 hs rfl rfl
    (by decide) (by decide) 2 (by decide)
  rw [show s.length / 16 = 1 by decide] at hchar' hrange'
  exact ⟨m, hs, ⟨hchar, hchar'⟩, hrange, hrange'⟩

end UbuntuProjects.Shuffle
