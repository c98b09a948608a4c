import UbuntuProjects.Model.SseString

/-!
# The two comparisons

A block of either comparison is the block of the two strings (`pcmpstri_block`), whether its
end is a NUL or a length, so both loops find the first difference.
-/

set_option autoImplicit false

namespace UbuntuProjects.SseString

open X86 Memory

/-- Zero for equal strings, else the place of the first difference, counted from 1. -/
def Compares (a b : List UInt8) (rax : ℕ) : Prop :=
  (a = b → rax = 0) ∧ (a ≠ b → ∃ i, rax = i + 1 ∧ DifferAt a b i)

variable {a b : List UInt8}

/-- INTERNAL: only one result is right. -/
theorem Compares.unique {r r' : ℕ} (h : Compares a b r) (h' : Compares a b r') : r = r' := by
  by_cases hab : a = b
  · rw [h.1 hab, h'.1 hab]
  · obtain ⟨i, rfl, hi⟩ := h.2 hab
    obtain ⟨j, rfl, hj⟩ := h'.2 hab
    rw [hi.unique hj]

/-- INTERNAL: the result at a difference. -/
theorem compares_of_differAt {i : ℕ} (h : DifferAt a b i) : Compares a b (i + 1) := by
  constructor
  · intro heq
    subst heq
    exact absurd rfl h.differ
  · intro _
    exact ⟨i, rfl, h⟩

/-- INTERNAL: the result for equal strings. -/
theorem compares_of_eq (h : a = b) : Compares a b 0 := ⟨fun _ => rfl, fun hne => absurd h hne⟩

/-- INTERNAL: what either turn makes of the outcome of its comparison. -/
theorem outcome_cases {σ : Type} {p : ℕ} {r : StringIndex} (next : σ)
    (hr : BlockOutcome 16 a b p r) {turn : Option (Turn σ ℕ)}
    (hturn : turn = if r.cf then some (.leave (p + r.rcx + 1))
      else if r.zf then some (.leave 0) else some (.again next)) :
    (∃ rax, turn = some (.leave rax) ∧ Compares a b rax) ∨
      (turn = some (.again next) ∧ AgreeTo a b (p + 16)) := by
  rw [hturn]
  cases hr with
  | differ hcf h =>
    rw [hcf, if_pos rfl]
    exact Or.inl ⟨_, rfl, compares_of_differAt h⟩
  | same hcf hzf h =>
    rw [hcf, if_neg Bool.false_ne_true, hzf, if_pos rfl]
    exact Or.inl ⟨_, rfl, compares_of_eq h⟩
  | agree hcf hzf h =>
    rw [hcf, if_neg Bool.false_ne_true, hzf, if_neg Bool.false_ne_true]
    exact Or.inr ⟨rfl, h⟩

variable {m : Mem} {rdi rsi fuel : ℕ}

/-! ## Implicit lengths -/

/-- INTERNAL: a turn with implicit lengths. -/
theorem ImplicitLength.turn_cases {a b : CString} (ha : HoldsString m rdi a)
    (hb : HoldsString m rsi b) {rbx : ℕ} (hs : AgreeTo a.bytes b.bytes rbx) :
    (∃ r, turn m rdi rsi rbx = some (.leave r) ∧ Compares a.bytes b.bytes r) ∨
      (turn m rdi rsi rbx = some (.again (rbx + 16)) ∧ AgreeTo a.bytes b.bytes (rbx + 16)) := by
  generalize hr : pcmpistri 0b00011000 (movdqu m (rdi + rbx)) (movdqu m (rsi + rbx)) = r
  have hturn : turn m rdi rsi rbx = if r.cf then some (.leave (rbx + r.rcx + 1))
      else if r.zf then some (.leave 0) else some (.again (rbx + 16)) := by
    rw [← hr]
    rfl
  unfold pcmpistri at hr
  rw [implicitLength_movdqu ha hs.le_left, implicitLength_movdqu hb hs.le_right] at hr
  exact outcome_cases _ (pcmpstri_block (by decide) rfl rfl rfl hs hr.symm) hturn

/-- **Implicit lengths.** -/
theorem ImplicitLength.pstrcmp_compares {a b : CString} (ha : HoldsString m rdi a)
    (hb : HoldsString m rsi b) (hfuel : a.length / 16 < fuel) :
    ∃ rax, pstrcmp fuel m rdi rsi = some rax ∧ Compares a.bytes b.bytes rax := by
  refine loop_total (AgreeTo a.bytes b.bytes) (fun rbx => (a.length - rbx) / 16) ?_ agreeTo_zero
    hfuel
  intro rbx hs
  refine (turn_cases ha hb hs).imp_right fun ⟨hagain, hagree⟩ => ⟨_, hagain, hagree, ?_⟩
  have hle : rbx + 16 ≤ a.length := hagree.le_left
  omega

/-! ## Explicit lengths -/

/-- The lengths that are left. -/
structure ExplicitLength.Left (a b : List UInt8) (s : Registers) : Prop where
  agree : AgreeTo a b s.rbx
  rax : s.rax.toNat = a.length - s.rbx
  rdx : s.rdx.toNat = b.length - s.rbx

/-- INTERNAL: a length below `2^31` is read from the low half of its register. -/
theorem natAbs_toInt_setWidth {x : BitVec 64} (hx : x.toNat < 2 ^ 31) :
    (x.setWidth 32).toInt.natAbs = x.toNat := by
  rw [BitVec.toInt_eq_toNat_of_lt (by rw [BitVec.toNat_setWidth]; omega), BitVec.toNat_setWidth]
  omega

/-- INTERNAL: sixteen less in a register that holds as many. -/
theorem toNat_sub_sixteen {x : BitVec 64} (hx : 16 ≤ x.toNat) :
    (x - 16).toNat = x.toNat - 16 :=
  BitVec.toNat_sub_of_le (BitVec.le_def.mpr hx)

/-- INTERNAL: a turn with explicit lengths. -/
theorem ExplicitLength.turn_cases (ha : read m rdi a.length = a) (hb : read m rsi b.length = b)
    (hla : a.length < 2 ^ 31) (hlb : b.length < 2 ^ 31) {s : Registers} (hs : Left a b s) :
    (∃ r, turn m rdi rsi s = some (.leave r) ∧ Compares a b r) ∨
      ∃ s', turn m rdi rsi s = some (.again s') ∧ Left a b s' ∧ s'.rbx = s.rbx + 16 := by
  have hrax : (s.rax.setWidth 32).toInt.natAbs = a.length - s.rbx := by
    rw [natAbs_toInt_setWidth (by have := hs.rax; omega), hs.rax]
  have hrdx : (s.rdx.setWidth 32).toInt.natAbs = b.length - s.rbx := by
    rw [natAbs_toInt_setWidth (by have := hs.rdx; omega), hs.rdx]
  generalize hr : pcmpestri 0b00011000 (s.rax.setWidth 32) (s.rdx.setWidth 32)
    (movdqu m (rdi + s.rbx)) (movdqu m (rsi + s.rbx)) = r
  have hturn : turn m rdi rsi s = if r.cf then some (.leave (s.rbx + r.rcx + 1))
      else if r.zf then some (.leave 0)
      else some (.again ⟨s.rbx + 16, s.rax - 16, s.rdx - 16⟩) := by
    rw [← hr]
    rfl
  unfold pcmpestri at hr
  rw [explicitLength_movdqu ha hrax, explicitLength_movdqu hb hrdx] at hr
  apply (outcome_cases _ (pcmpstri_block (by decide) rfl rfl rfl hs.agree hr.symm) hturn).imp_right
  rintro ⟨hagain, hagree⟩
  -- at least sixteen bytes of both are left
  have hle := hagree.le_left
  have hle' := hagree.le_right
  refine ⟨_, hagain, ⟨hagree, ?_, ?_⟩, rfl⟩
  · show (s.rax - 16).toNat = a.length - (s.rbx + 16)
    rw [toNat_sub_sixteen (by rw [hs.rax]; omega), hs.rax]
    omega
  · show (s.rdx - 16).toNat = b.length - (s.rbx + 16)
    rw [toNat_sub_sixteen (by rw [hs.rdx]; omega), hs.rdx]
    omega

/-- **Explicit lengths.** -/
theorem ExplicitLength.pstrcmp_compares (ha : read m rdi a.length = a)
    (hb : read m rsi b.length = b) (hla : a.length < 2 ^ 31) (hlb : b.length < 2 ^ 31)
    (hfuel : a.length / 16 < fuel) :
    ∃ rax, pstrcmp fuel m rdi rsi (BitVec.ofNat 64 a.length) (BitVec.ofNat 64 b.length) =
      some rax ∧ Compares a b rax := by
  refine loop_total (Left a b) (fun s => (a.length - s.rbx) / 16) ?_ ?_ hfuel
  · intro s hs
    refine (turn_cases ha hb hla hlb hs).imp_right fun ⟨s', hagain, hleft, hrbx⟩ =>
      ⟨s', hagain, hleft, ?_⟩
    have := hleft.agree.le_left
    omega
  · refine ⟨agreeTo_zero, ?_, ?_⟩
    · show (BitVec.ofNat 64 a.length).toNat = a.length - 0
      rw [BitVec.toNat_ofNat]
      omega
    · show (BitVec.ofNat 64 b.length).toNat = b.length - 0
      rw [BitVec.toNat_ofNat]
      omega

/-! ## Both -/

/-- **The two comparisons agree**, with each other and with the strings byte by byte. -/
theorem pstrcmp_agree (a b : CString) (hla : a.length < 2 ^ 31) (hlb : b.length < 2 ^ 31)
    (m m' : Mem) (rdi rsi rdi' rsi' : ℕ) (ha : read m rdi a.length = a.bytes)
    (hb : read m rsi b.length = b.bytes) (ha' : HoldsString m' rdi' a)
    (hb' : HoldsString m' rsi' b) (fuel : ℕ) (hfuel : a.length / 16 < fuel) :
    ∃ rax, ExplicitLength.pstrcmp fuel m rdi rsi (BitVec.ofNat 64 a.length)
        (BitVec.ofNat 64 b.length) = some rax ∧
      ImplicitLength.pstrcmp fuel m' rdi' rsi' = some rax ∧
      (a = b → rax = 0) ∧
      (a ≠ b → ∃ i, rax = i + 1 ∧ DifferAt a.bytes b.bytes i) := by
  obtain ⟨rax, hexplicit, hrax⟩ := ExplicitLength.pstrcmp_compares ha hb hla hlb hfuel
  obtain ⟨rax', himplicit, hrax'⟩ := ImplicitLength.pstrcmp_compares ha' hb' hfuel
  rw [hrax'.unique hrax] at himplicit
  refine ⟨rax, hexplicit, himplicit, ?_, ?_⟩
  · intro heq
    exact hrax.1 (congrArg CString.bytes heq)
  · intro hne
    apply hrax.2
    intro heq
    exact hne (CString.ext heq)

/-- A string and a longer one, which differ in the second block. -/
theorem pstrcmp_agree_blocks :
    ∃ m : Mem, ∃ rax, ExplicitLength.pstrcmp 2 m 0 18 (BitVec.ofNat 64 17)
        (BitVec.ofNat 64 18) = some rax ∧
      ImplicitLength.pstrcmp 2 m 0 18 = some rax ∧
      ∃ i, rax = i + 1 ∧ DifferAt (List.replicate 16 120 ++ [97] : List UInt8)
        (List.replicate 16 120 ++ [98, 99]) i := by
  let a : CString := ⟨List.replicate 16 120 ++ [97], by decide⟩
  let b : CString := ⟨List.replicate 16 120 ++ [98, 99], by decide⟩
  let m : Mem := fun i => (a.bytes ++ [0] ++ b.bytes).getD i 0
  obtain ⟨rax, hexplicit, himplicit, -, hdiffer⟩ := pstrcmp_agree a b (by decide) (by decide) m m
    0 18 0 18 rfl rfl ⟨rfl, rfl⟩ ⟨rfl, rfl⟩ 2 (by decide)
  have hne : a.bytes ≠ b.bytes := by decide
  exact ⟨m, rax, hexplicit, himplicit, hdiffer fun heq => hne (congrArg CString.bytes heq)⟩

end UbuntuProjects.SseString
