import UbuntuProjects.Model.SseString

/-!
# The first and the last place of a byte

Both scans look for one byte with equal any. `pstrscan_f` leaves with the least index of the
first block that has one; `pstrscan_l` keeps the greatest index of the last block that has
one, and goes on until the flag of the NUL. Bytes behind the NUL are invalid and set no bit.
-/

set_option autoImplicit false

namespace UbuntuProjects.SseString

open X86 Memory

/-- The first place of `c` in `s`, counted from 1, and zero if there is none. -/
def FirstPlace (c : UInt8) (s : List UInt8) (rax : ℕ) : Prop :=
  (rax = 0 ↔ c ∉ s) ∧
    (c ∈ s → ∃ i, rax = i + 1 ∧ s[i]? = some c ∧ ∀ j, j < i → s[j]? ≠ some c)

/-- The last place of `c` in `s`, counted from 1, and zero if there is none. -/
def LastPlace (c : UInt8) (s : List UInt8) (rax : ℕ) : Prop :=
  (rax = 0 ↔ c ∉ s) ∧
    (c ∈ s → ∃ i, rax = i + 1 ∧ s[i]? = some c ∧ ∀ j, i < j → s[j]? ≠ some c)

/-- `c` stands at place `q`. -/
def here (c : UInt8) (s : List UInt8) (q : ℕ) : Bool := decide (s[q]? = some c)

section Places

variable {c : UInt8} {s : List UInt8} {i n r : ℕ}

/-- INTERNAL: `c` does not stand at a place. -/
theorem here_eq_false : here c s i = false ↔ s[i]? ≠ some c := decide_eq_false_iff_not

/-- INTERNAL: `c` stands at no place. -/
theorem not_mem_of_here (h : ∀ j, j < n → here c s j = false) (hn : s.length ≤ n) : c ∉ s := by
  intro hc
  obtain ⟨j, hj⟩ := List.mem_iff_getElem?.mp hc
  have hlt := (List.getElem?_eq_some_iff.mp hj).1
  exact here_eq_false.mp (h j (Nat.lt_of_lt_of_le hlt hn)) hj

/-- INTERNAL: where `c` stands somewhere the result is not zero. -/
theorem place_eq_zero_iff (hget : s[i]? = some c) : i + 1 = 0 ↔ c ∉ s := by
  apply iff_of_false (Nat.succ_ne_zero i)
  rw [not_not]
  exact List.mem_of_getElem? hget

/-- INTERNAL: a place with no `c` in front of it. -/
theorem firstPlace_of_here (hi : here c s i = true) (hbefore : ∀ j, j < i → here c s j = false) :
    FirstPlace c s (i + 1) := by
  have hget := of_decide_eq_true hi
  refine ⟨place_eq_zero_iff hget, ?_⟩
  intro _
  exact ⟨i, rfl, hget, fun j hj => here_eq_false.mp (hbefore j hj)⟩

/-- INTERNAL: no place up to the end. -/
theorem firstPlace_of_absent (h : ∀ j, j < n → here c s j = false) (hn : s.length ≤ n) :
    FirstPlace c s 0 :=
  ⟨iff_of_true rfl (not_mem_of_here h hn), fun hc => absurd hc (not_mem_of_here h hn)⟩

/-- The last place below `n`, counted from 1, and zero if there is none. -/
inductive LastBelow (c : UInt8) (s : List UInt8) (n : ℕ) : ℕ → Prop where
  | absent (h : ∀ j, j < n → here c s j = false) : LastBelow c s n 0
  | place (i : ℕ) (h : here c s i = true) (hbehind : ∀ j, i < j → j < n → here c s j = false) :
      LastBelow c s n (i + 1)

/-- INTERNAL: `k` more places. -/
theorem forall_extend {P : ℕ → Prop} {k : ℕ} (h : ∀ j, j < n → P j)
    (hk : ∀ j, j < k → P (n + j)) : ∀ j, j < n + k → P j := by
  intro j hj
  by_cases hjn : j < n
  · exact h j hjn
  · obtain ⟨d, rfl⟩ := Nat.exists_eq_add_of_le (Nat.le_of_not_lt hjn)
    apply hk
    omega

/-- INTERNAL: `k` more places without `c` do not change the last one. -/
theorem LastBelow.extend {k : ℕ} (h : LastBelow c s n r)
    (hk : ∀ j, j < k → here c s (n + j) = false) : LastBelow c s (n + k) r := by
  cases h with
  | absent h => exact .absent (forall_extend h hk)
  | place i h hbehind =>
    have hextend : ∀ j, j < n + k → i < j → here c s j = false :=
      forall_extend (fun j hj hij => hbehind j hij hj) fun j hj _ => hk j hj
    exact .place i h fun j hij hj => hextend j hj hij

/-- INTERNAL: the last place below the end is the last one. -/
theorem LastBelow.lastPlace (h : LastBelow c s n r) (hn : s.length ≤ n) : LastPlace c s r := by
  cases h with
  | absent h =>
    exact ⟨iff_of_true rfl (not_mem_of_here h hn), fun hc => absurd hc (not_mem_of_here h hn)⟩
  | place i h hbehind =>
    have hget := of_decide_eq_true h
    refine ⟨place_eq_zero_iff hget, ?_⟩
    intro _
    refine ⟨i, rfl, hget, ?_⟩
    intro j hij
    by_cases hjn : j < n
    · exact here_eq_false.mp (hbehind j hij hjn)
    · rw [List.getElem?_eq_none (Nat.le_trans hn (Nat.le_of_not_lt hjn))]
      exact (Option.some_ne_none c).symm

end Places

variable {m : Mem} {rdi rsi fuel : ℕ} {s : CString}

/-- INTERNAL: the register holds the string of one byte. -/
theorem implicitLength_searched (hc : m rsi ≠ 0) :
    implicitLength 0 (searched m rsi) = window [m rsi] 0 := by
  apply implicitLength_register
  · rw [List.mem_singleton]
    exact hc.symm
  · intro i
    unfold searched pinsrb
    by_cases hi : i.val = 0
    · rw [if_pos hi, hi]
      rfl
    · rw [if_neg hi, List.getD_eq_default]
      exact Nat.one_le_iff_ne_zero.mpr hi

/-- INTERNAL: the bits that a block of the string sets. -/
theorem pcmpstr_searched {imm : ℕ} (hc : m rsi ≠ 0) (hagg : aggregation imm = .equalAny)
    (hpol : polarity imm = .positive) (p : ℕ) (i : Fin 16) :
    pcmpstr imm (implicitLength 0 (searched m rsi)) (window s.bytes p) i =
      here (m rsi) s.bytes (p + i.val) := by
  rw [implicitLength_searched hc, pcmpstr_any hagg hpol (by simp)]
  unfold here
  cases s.bytes[p + i.val]? <;> simp

/-! ## The first place -/

/-- INTERNAL: a turn of `pstrscan_f`. -/
theorem pstrscan_fTurn_cases (hs : HoldsString m rdi s) (hc : m rsi ≠ 0) {rax : ℕ}
    (hrax : rax ≤ s.length) (hbefore : ∀ j, j < rax → here (m rsi) s.bytes j = false) :
    (∃ r, pstrscan_fTurn m (searched m rsi) rdi rax = some (.leave r) ∧
      FirstPlace (m rsi) s.bytes r) ∨
      (pstrscan_fTurn m (searched m rsi) rdi rax = some (.again (rax + 16)) ∧
        rax + 16 ≤ s.length ∧ ∀ j, j < rax + 16 → here (m rsi) s.bytes j = false) := by
  unfold pstrscan_fTurn
  dsimp only
  generalize hr : pcmpistri 0b00000000 (searched m rsi) (movdqu m (rdi + rax)) = r
  unfold pcmpistri at hr
  rw [implicitLength_movdqu hs hrax] at hr
  have hzf : r.zf = decide (s.length < rax + 16) := by
    rw [← hr]
    exact ended_window (by decide)
  cases pcmpstri_first rfl (pcmpstr_searched hc rfl rfl rax) hr.symm with
  | found hcf h hblock =>
    rw [hcf, if_pos rfl]
    exact Or.inl ⟨_, rfl, firstPlace_of_here h (forall_extend hbefore hblock)⟩
  | absent hcf h =>
    have habsent := forall_extend hbefore h
    rw [hcf, if_neg Bool.false_ne_true, hzf]
    by_cases hend : s.length < rax + 16
    · rw [decide_eq_true hend, if_pos rfl]
      exact Or.inl ⟨_, rfl, firstPlace_of_absent habsent (Nat.le_of_lt hend)⟩
    · rw [decide_eq_false hend, if_neg Bool.false_ne_true]
      exact Or.inr ⟨rfl, Nat.le_of_not_lt hend, habsent⟩

/-- **The first place.** -/
theorem pstrscan_f_first (hs : HoldsString m rdi s) (hc : m rsi ≠ 0)
    (hfuel : s.length / 16 < fuel) :
    ∃ rax, pstrscan_f fuel m rdi rsi = some rax ∧ FirstPlace (m rsi) s.bytes rax := by
  apply loop_total
    (fun rax => rax ≤ s.length ∧ ∀ j, j < rax → here (m rsi) s.bytes j = false)
    (fun rax => (s.length - rax) / 16)
  · rintro rax ⟨hrax, hbefore⟩
    apply (pstrscan_fTurn_cases hs hc hrax hbefore).imp_right
    rintro ⟨hagain, hle, habsent⟩
    exact ⟨_, hagain, ⟨hle, habsent⟩, by omega⟩
  · exact ⟨Nat.zero_le _, fun j hj => absurd hj (Nat.not_lt_zero j)⟩
  · exact hfuel

/-! ## The last place -/

/-- INTERNAL: a turn of `pstrscan_l`. -/
theorem pstrscan_lTurn_cases (hs : HoldsString m rdi s) (hc : m rsi ≠ 0) {t : LastScan}
    (hrax : t.rax ≤ s.length) (hlast : LastBelow (m rsi) s.bytes t.rax t.r12) :
    (∃ r, pstrscan_lTurn m (searched m rsi) rdi t = some (.leave r) ∧
      LastPlace (m rsi) s.bytes r) ∨
      ∃ r12, pstrscan_lTurn m (searched m rsi) rdi t = some (.again ⟨t.rax + 16, r12⟩) ∧
        t.rax + 16 ≤ s.length ∧ LastBelow (m rsi) s.bytes (t.rax + 16) r12 := by
  unfold pstrscan_lTurn
  dsimp only
  generalize hr : pcmpistri 0b01000000 (searched m rsi) (movdqu m (rdi + t.rax)) = r
  unfold pcmpistri at hr
  rw [implicitLength_movdqu hs hrax] at hr
  have hzf : r.zf = decide (s.length < t.rax + 16) := by
    rw [← hr]
    exact ended_window (by decide)
  rw [hzf]
  cases pcmpstri_last rfl (pcmpstr_searched hc rfl rfl t.rax) hr.symm with
  | found hcf hlt h hblock =>
    have hfound : LastBelow (m rsi) s.bytes (t.rax + 16) (t.rax + r.rcx + 1) := by
      apply LastBelow.place _ h
      intro j hj hjn
      obtain ⟨d, rfl⟩ := Nat.exists_eq_add_of_le (show t.rax ≤ j by omega)
      exact hblock d (by omega) (by omega)
    rw [hcf, if_pos rfl]
    by_cases hend : s.length < t.rax + 16
    · rw [decide_eq_true hend, if_pos rfl]
      exact Or.inl ⟨_, rfl, hfound.lastPlace (Nat.le_of_lt hend)⟩
    · rw [decide_eq_false hend, if_neg Bool.false_ne_true]
      exact Or.inr ⟨_, rfl, Nat.le_of_not_lt hend, hfound⟩
  | absent hcf h =>
    have hsame := hlast.extend h
    rw [hcf, if_neg Bool.false_ne_true]
    by_cases hend : s.length < t.rax + 16
    · rw [decide_eq_true hend, if_pos rfl]
      exact Or.inl ⟨_, rfl, hsame.lastPlace (Nat.le_of_lt hend)⟩
    · rw [decide_eq_false hend, if_neg Bool.false_ne_true]
      exact Or.inr ⟨_, rfl, Nat.le_of_not_lt hend, hsame⟩

/-- **The last place.** -/
theorem pstrscan_l_last (hs : HoldsString m rdi s) (hc : m rsi ≠ 0)
    (hfuel : s.length / 16 < fuel) :
    ∃ rax, pstrscan_l fuel m rdi rsi = some rax ∧ LastPlace (m rsi) s.bytes rax := by
  apply loop_total
    (fun t : LastScan => t.rax ≤ s.length ∧ LastBelow (m rsi) s.bytes t.rax t.r12)
    (fun t => (s.length - t.rax) / 16)
  · rintro t ⟨hrax, hlast⟩
    apply (pstrscan_lTurn_cases hs hc hrax hlast).imp_right
    rintro ⟨r12, hagain, hle, hlast'⟩
    refine ⟨_, hagain, ⟨hle, hlast'⟩, ?_⟩
    show (s.length - (t.rax + 16)) / 16 < (s.length - t.rax) / 16
    omega
  · exact ⟨Nat.zero_le _, .absent fun j hj => absurd hj (Nat.not_lt_zero j)⟩
  · exact hfuel

/-! ## Both -/

/-- **The places of a byte.** Both scans end, with the first and the last place of the byte,
counted from 1, and with zero exactly when it does not occur. -/
theorem pstrscan_places (s : CString) (c : UInt8) (m : Mem) (rdi rsi : ℕ)
    (hs : HoldsString m rdi s) (hc : m rsi = c) (hpos : c ≠ 0) (fuel : ℕ)
    (hfuel : s.length / 16 < fuel) :
    ∃ first last, pstrscan_f fuel m rdi rsi = some first ∧
      pstrscan_l fuel m rdi rsi = some last ∧
      FirstPlace c s.bytes first ∧ LastPlace c s.bytes last := by
  subst hc
  obtain ⟨first, hfirst, hplace⟩ := pstrscan_f_first hs hpos hfuel
  obtain ⟨last, hlast, hplace'⟩ := pstrscan_l_last hs hpos hfuel
  exact ⟨first, last, hfirst, hlast, hplace, hplace'⟩

/-- A byte that stands twice in the second block, and again behind the string. -/
theorem pstrscan_places_blocks :
    ∃ m : Mem, ∃ first last, m 20 = 0 ∧ m 21 = 101 ∧ pstrscan_f 2 m 0 16 = some first ∧
      pstrscan_l 2 m 0 16 = some last ∧
      FirstPlace 101 (List.replicate 16 120 ++ [101, 120, 101, 120]) first ∧
      LastPlace 101 (List.replicate 16 120 ++ [101, 120, 101, 120]) last := by
  let s : CString := ⟨List.replicate 16 120 ++ [101, 120, 101, 120], by decide⟩
  let m : Mem := fun i => (s.bytes ++ [0]).getD i 101
  obtain ⟨first, last, h⟩ :=
    pstrscan_places s 101 m 0 16 ⟨rfl, rfl⟩ rfl (by decide) 2 (by decide)
  exact ⟨m, first, last, rfl, rfl, h⟩

end UbuntuProjects.SseString
