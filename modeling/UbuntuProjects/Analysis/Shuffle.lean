import UbuntuProjects.Model.Shuffle

/-!
# A search, block by block

`searchTurn` counts the bits of its mask and prints them in the order of the text. In the
block with the NUL `pstrlen` returns at once, with the number of bytes in front of the NUL in
`rcx`.
-/

set_option autoImplicit false

namespace UbuntuProjects.Shuffle

open X86 Memory

/-! ## Masks -/

/-- INTERNAL: the order of the bytes is turned round. -/
theorem reverse_xmm0_apply (x : Xmm) (i : Fin 16) : reverse_xmm0 x i = x i.rev := by
  have hmask : ∀ i, (bytereverse i).toNat < 128 ∧
      Fin.ofNat 16 (bytereverse i).toNat = i.rev := by decide
  unfold reverse_xmm0 pshufb
  rw [if_neg (Nat.not_le.mpr (hmask i).1), (hmask i).2]

/-- INTERNAL: turning a block round does not change how often something holds in it. -/
theorem countP_rev (P : ℕ → Bool) :
    (List.range 16).countP (fun i => P (15 - i)) = (List.range 16).countP P := by
  have hrev : (List.range 16).map (fun i => 15 - i) = (List.range 16).reverse := by decide
  rw [← List.countP_reverse (p := P), ← hrev, List.countP_map]
  rfl

/-- INTERNAL: the digits from bit `rdx + k` down to bit `rdx`. -/
theorem print16bLoop_eq (r8d : BitVec 32) (rdx k : ℕ) (hk : rdx + k < 32) :
    print16bLoop r8d rdx (rdx + k : ℕ) =
      (List.range (k + 1)).map fun j => r8d.getLsbD (rdx + k - j) := by
  have hbit : (((rdx + k : ℕ) : ℤ) % 32).toNat = rdx + k := by omega
  induction k with
  | zero =>
    rw [print16bLoop, if_neg (by omega), hbit]
    rfl
  | succ k ih =>
    have hpred : ((rdx + (k + 1) : ℕ) : ℤ) - 1 = ((rdx + k : ℕ) : ℤ) := by omega
    rw [print16bLoop, if_pos (by omega), hbit, hpred, ih (by omega) (by omega),
      List.range_succ_eq_map (n := k + 1), List.map_cons, List.map_map, Nat.sub_zero]
    congr 1
    apply List.map_congr_left
    intro j _
    show _ = r8d.getLsbD (rdx + (k + 1) - (j + 1))
    congr 1
    omega

/-- The mask of whole bytes with the bits that `P` tells. -/
def MaskOf (x : Xmm) (P : ℕ → Bool) : Prop := ∀ i : Fin 16, x i = if P i then 0xFF else 0

section Masks

variable {x : Xmm} {P : ℕ → Bool}

/-- INTERNAL: the highest bit of a byte of the mask, in the order of the text. -/
theorem high_reverse_xmm0 (h : MaskOf x P) (i : Fin 16) :
    decide (128 ≤ (reverse_xmm0 x i).toNat) = P (15 - i) := by
  have hrev : (i.rev : ℕ) = 15 - i := by
    rw [Fin.val_rev]
    omega
  rw [reverse_xmm0_apply, h, hrev]
  cases P (15 - i) <;> rfl

/-- **The count.** As many bits are counted as bytes are set. -/
theorem popcnt_print_mask (h : MaskOf x P) (rsi : ℤ) :
    popcnt (print_mask x rsi).r13d = BitVec.ofNat 32 ((List.range 16).countP P) := by
  rw [← countP_rev]
  exact popcnt_pmovmskb (high_reverse_xmm0 h)

/-- **The digits of a whole block** are printed in the order of the text. -/
theorem printed_print_mask (h : MaskOf x P) :
    (print_mask x 16).printed = (List.range 16).map P := by
  have hprinted := print16bLoop_eq (pmovmskb (reverse_xmm0 x)) 0 15 (by decide)
  unfold print_mask print16b
  dsimp only
  rw [show (16 : ℤ) - 16 = ((0 : ℕ) : ℤ) from rfl, show (15 : ℤ) = ((0 + 15 : ℕ) : ℤ) from rfl,
    hprinted]
  apply List.map_congr_left
  intro j hj
  have hj16 := List.mem_range.mp hj
  rw [getLsbD_pmovmskb _ (by omega), dif_pos (by omega), high_reverse_xmm0 h]
  congr 1
  show 15 - (0 + 15 - j) = j
  omega

end Masks

variable {m : Mem} {rdi fuel : ℕ} {s : CString}

/-! ## The length -/

/-- INTERNAL: `xmm0` is cleared, so its string is empty. -/
theorem implicitLength_zero (i : Fin 16) :
    implicitLength (0 : UInt8) (fun _ : Fin 16 => 0) i = none :=
  if_neg fun h => h i (Fin.le_refl i) rfl

/-- **`pstrlen` finds the NUL**, from any place in the string. -/
theorem pstrlen_eq (hs : HoldsString m rdi s) {p : ℕ} (hp : p ≤ s.length)
    (hfuel : (s.length - p) / 16 < fuel) :
    pstrlen fuel m (rdi + p) = some ⟨s.length - p, (s.length - p) % 16⟩ := by
  have hturn : ∀ rax, rax % 16 = 0 ∧ p + rax ≤ s.length →
      (∃ r, pstrlenTurn m (rdi + p) rax = some (.leave r) ∧
        r = ⟨s.length - p, (s.length - p) % 16⟩) ∨
      ∃ rax', pstrlenTurn m (rdi + p) rax = some (.again rax') ∧
        (rax' % 16 = 0 ∧ p + rax' ≤ s.length) ∧
          (s.length - p - rax') / 16 < (s.length - p - rax) / 16 := by
    rintro rax ⟨hmod, hle⟩
    unfold pstrlenTurn
    dsimp only
    generalize hr : pcmpistri 0b00001000 (fun _ => 0) (movdqu m (rdi + p + rax)) = r
    unfold pcmpistri at hr
    rw [Nat.add_assoc, implicitLength_movdqu hs hle] at hr
    obtain ⟨hzf, hrcx⟩ := pcmpstri_end (by decide) rfl rfl rfl implicitLength_zero hr.symm
    have hlen : s.bytes.length = s.length := rfl
    by_cases hend : s.bytes.length < p + rax + 16
    · rw [hzf, decide_eq_true hend, if_pos rfl, hrcx hle hend]
      refine Or.inl ⟨_, rfl, ?_⟩
      congr 1 <;> omega
    · rw [hzf, decide_eq_false hend, if_neg Bool.false_ne_true]
      exact Or.inr ⟨_, rfl, ⟨by omega, by omega⟩, by omega⟩
  obtain ⟨r, hr, rfl⟩ := loop_total (s := 0) _ _ hturn ⟨rfl, hp⟩ hfuel
  exact hr

/-! ## The turns of a search -/

/-- `P` tells which bits the instruction sets in the blocks of a string. -/
def Marks (imm : ℕ) (xmm1 : Xmm) (s : CString) (P : ℕ → Bool) : Prop :=
  ∀ k, ∀ i : Fin 16,
    pcmpstr imm (implicitLength 0 xmm1) (window s.bytes (16 * k)) i = P (16 * k + i)

/-- The registers in front of block `k`. -/
structure Reached (rdi : ℕ) (P : ℕ → Bool) (k : ℕ) (t : Search) : Prop where
  rdi : t.rdi = rdi
  rbx : t.rbx = 16 * k
  r12d : t.r12d = BitVec.ofNat 32 ((List.range (16 * k)).countP P)
  printed : t.printed = (List.range (16 * k)).map P

section Turns

variable {imm : ℕ} {restore : ℕ → ℕ → ℕ} {xmm1 : Xmm} {P : ℕ → Bool} {k : ℕ} {t : Search}

/-- INTERNAL: the mask of block `k`. -/
theorem pcmpistrm_block (hs : HoldsString m rdi s) (hP : Marks imm xmm1 s P)
    (hk : 16 * k ≤ s.length) :
    (pcmpistrm imm xmm1 (movdqu m (rdi + 16 * k))).zf = decide (s.length < 16 * k + 16) ∧
      MaskOf (pcmpistrm imm xmm1 (movdqu m (rdi + 16 * k))).xmm0 fun i => P (16 * k + i) := by
  unfold pcmpistrm
  dsimp only
  rw [implicitLength_movdqu hs hk]
  refine ⟨ended_window (by decide), ?_⟩
  intro i
  dsimp only
  rw [hP k i]

/-- INTERNAL: the blocks up to `k` and block `k`. -/
theorem range_block (k : ℕ) :
    List.range (16 * (k + 1)) =
      List.range (16 * k) ++ (List.range 16).map (fun i => 16 * k + i) := by
  rw [Nat.mul_succ, List.range_add]

/-- INTERNAL: the count behind block `k`. -/
theorem Reached.count (h : Reached rdi P k t) :
    t.r12d + BitVec.ofNat 32 ((List.range 16).countP fun i => P (16 * k + i)) =
      BitVec.ofNat 32 ((List.range (16 * (k + 1))).countP P) := by
  rw [h.r12d, ← BitVec.ofNat_add, range_block, List.countP_append, List.countP_map]
  rfl

/-- **A block without the NUL.** -/
theorem searchTurn_inner (hs : HoldsString m rdi s) (hP : Marks imm xmm1 s P)
    (hk : 16 * (k + 1) ≤ s.length) (ht : Reached rdi P k t) :
    ∃ t', searchTurn imm restore fuel m xmm1 t = some (.again t') ∧
      Reached rdi P (k + 1) t' := by
  obtain ⟨hzf, hmask⟩ := pcmpistrm_block hs hP (show 16 * k ≤ s.length by omega)
  unfold searchTurn
  dsimp only
  rw [ht.rdi, ht.rbx, hzf, decide_eq_false (by omega), if_pos rfl]
  refine ⟨_, rfl, ⟨rfl, rfl, ?_, ?_⟩⟩
  · show t.r12d + _ = _
    rw [popcnt_print_mask hmask, ht.count]
  · show t.printed ++ _ = _
    rw [printed_print_mask hmask, ht.printed, range_block, List.map_append, List.map_map]
    rfl

/-- **The block with the NUL.** The search ends with it unless `cl` is zero then. -/
theorem searchTurn_last (restore : ℕ → ℕ → ℕ) (hs : HoldsString m rdi s) (hP : Marks imm xmm1 s P)
    (hk : s.length / 16 = k) (hfuel : 0 < fuel) (ht : Reached rdi P k t) :
    (restore 1 (s.length % 16) % 256 ≠ 0 →
      ∃ r, searchTurn imm restore fuel m xmm1 t = some (.leave r) ∧
        r.rax = (List.range (16 * (k + 1))).countP P % 2 ^ 32) ∧
      (restore 1 (s.length % 16) % 256 = 0 →
        ∃ t', searchTurn imm restore fuel m xmm1 t = some (.again t')) := by
  obtain ⟨hzf, hmask⟩ := pcmpistrm_block hs hP (show 16 * k ≤ s.length by omega)
  unfold searchTurn
  dsimp only
  rw [ht.rdi, ht.rbx, hzf, decide_eq_true (by omega), if_neg (by decide),
    pstrlen_eq hs (by omega) (by omega)]
  dsimp only
  have hmod : (s.length - 16 * k) % 16 = s.length % 16 := by omega
  rw [hmod]
  constructor
  · intro hcl
    rw [if_pos hcl]
    refine ⟨_, rfl, ?_⟩
    show (t.r12d + _).toNat = _
    rw [popcnt_print_mask hmask, ht.count, BitVec.toNat_ofNat]
  · intro hcl
    rw [if_neg (not_not.mpr hcl)]
    exact ⟨_, rfl⟩

/-- **The blocks in front of the NUL.** A search goes through all of them. -/
theorem search_run (restore : ℕ → ℕ → ℕ) (fuel : ℕ) (hs : HoldsString m rdi s)
    (hP : Marks imm xmm1 s P) :
    ∃ t, Reached rdi P (s.length / 16) t ∧
      ∀ turns, loop (searchTurn imm restore fuel m xmm1) (s.length / 16 + turns) ⟨rdi, 0, 0, []⟩ =
        loop (searchTurn imm restore fuel m xmm1) turns t := by
  apply loop_run
  · exact ⟨rfl, rfl, rfl, rfl⟩
  · intro k t hk ht
    exact searchTurn_inner hs hP (by omega) ht

end Turns

end UbuntuProjects.Shuffle
