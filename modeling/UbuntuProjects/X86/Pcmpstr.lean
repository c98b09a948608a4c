import Mathlib.Data.Fin.Tuple.Basic
import Mathlib.Data.Fintype.Basic
import Mathlib.Data.Nat.Bitwise

/-!
# The string instructions of SSE 4.2

`pcmpistri`, `pcmpestri` and `pcmpistrm` compare two strings of at most `n` elements. Where a
string ends in front of its last element, the elements behind the end are invalid; here they
are `none`. The comparisons of single elements are aggregated to one bit for each element of
the second operand, the bits are negated or not, and the outcome is an index or a mask.

The immediate selects the aggregation with bits 2 and 3, the polarity with bits 4 and 5, and
with bit 6 the index from above or the mask of whole elements. Bits 0 and 1 are the format
of the elements, which is the type `α` here.
-/

set_option autoImplicit false

namespace X86

variable {α : Type} {n : ℕ}

/-! ## Operands -/

/-- The elements of a string in a register or in memory, `none` behind its end. -/
abbrev Operand (α : Type) (n : ℕ) : Type := Fin n → Option α

/-- Implicit length: the string ends in front of the first `nul`. -/
def implicitLength [DecidableEq α] (nul : α) (x : Fin n → α) : Operand α n := fun i =>
  if ∀ j, j ≤ i → x j ≠ nul then some (x i) else none

/-- Explicit length: the absolute value of a register; all elements are valid from `n` on. -/
def explicitLength (len : ℤ) (x : Fin n → α) : Operand α n := fun i =>
  if i.val < len.natAbs then some (x i) else none

/-- The elements of a list from `p` on. -/
def window (s : List α) (p : ℕ) : Operand α n := fun i => s[p + i.val]?

/-! ## Comparing -/

inductive Aggregation : Type where
  | equalAny
  | ranges
  | equalEach
  | equalOrdered

inductive Polarity : Type where
  | positive
  | negative
  | maskedPositive
  | maskedNegative

def aggregation (imm : ℕ) : Aggregation :=
  match imm / 4 % 4 with
  | 0 => .equalAny
  | 1 => .ranges
  | 2 => .equalEach
  | _ => .equalOrdered

def polarity (imm : ℕ) : Polarity :=
  match imm / 16 % 4 with
  | 0 => .positive
  | 1 => .negative
  | 2 => .maskedPositive
  | _ => .maskedNegative

section Elements

variable [DecidableEq α]

/-- Equal any: an invalid element is equal to none. -/
def sameAny : Option α → Option α → Bool
  | some x, some y => decide (x = y)
  | _, _ => false

/-- Equal each: two invalid elements are equal, a valid one is not equal to an invalid one. -/
def sameEach : Option α → Option α → Bool
  | some x, some y => decide (x = y)
  | none, none => true
  | _, _ => false

/-- Equal ordered: behind the end of the first operand everything fits. -/
def sameOrdered : Option α → Option α → Bool
  | some x, some y => decide (x = y)
  | none, _ => true
  | some _, none => false

theorem sameEach_eq (x y : Option α) : sameEach x y = decide (x = y) := by
  cases x <;> cases y <;> simp [sameEach]

theorem sameOrdered_iff {x y : Option α} :
    sameOrdered x y = true ↔ ∀ e, x = some e → y = some e := by
  cases x with
  | none => simp [sameOrdered]
  | some e => cases y <;> simp [sameOrdered, eq_comm]

theorem sameAny_iff {x y : Option α} : sameAny x y = true ↔ ∃ e, x = some e ∧ y = some e := by
  cases x with
  | none => simp [sameAny]
  | some e => cases y <;> simp [sameAny, eq_comm]

/-- Ranges: a valid element between two valid bounds. -/
def between [LE α] [DecidableLE α] : Option α → Option α → Option α → Bool
  | some lo, some hi, some y => decide (lo ≤ y ∧ y ≤ hi)
  | _, _, _ => false

/-- The bit of each element of `b`, before the polarity. -/
def intRes1 [LE α] [DecidableLE α] (agg : Aggregation) (a b : Operand α n) : Fin n → Bool :=
  fun j =>
    match agg with
    | .equalAny => decide (∃ i, sameAny (a i) (b j))
    | .ranges =>
      decide (∃ i k : Fin n, i.val % 2 = 0 ∧ k.val = i.val + 1 ∧ between (a i) (a k) (b j))
    | .equalEach => sameEach (a j) (b j)
    | .equalOrdered => decide (∀ i k : Fin n, k.val = j.val + i.val → sameOrdered (a i) (b k))

def intRes2 (pol : Polarity) (b : Operand α n) (r : Fin n → Bool) : Fin n → Bool := fun j =>
  match pol with
  | .positive => r j
  | .negative => !r j
  | .maskedPositive => r j
  | .maskedNegative => if (b j).isSome then !r j else r j

/-- The bits that an instruction finds. -/
def pcmpstr [LE α] [DecidableLE α] (imm : ℕ) (a b : Operand α n) : Fin n → Bool :=
  intRes2 (polarity imm) b (intRes1 (aggregation imm) a b)

end Elements

/-! ## What is returned -/

/-- The index of the least bit that is set, `n` if none is. -/
def leastIndex (r : Fin n → Bool) : ℕ := (List.finRange n).findIdx r

/-- The index of the greatest bit that is set, `n` if none is. -/
def greatestIndex (r : Fin n → Bool) : ℕ :=
  if ∃ i, r i then n - 1 - leastIndex fun i => r i.rev else n

/-- CF: some bit is set. -/
def carry (r : Fin n → Bool) : Bool := decide (∃ i, r i)

/-- ZF: the second operand ends in front of its last element. -/
def ended (b : Operand α n) : Bool := decide (∃ i, b i = none)

/-- The outcome of `pcmpistri` and `pcmpestri`. -/
structure StringIndex where
  rcx : ℕ
  cf : Bool
  zf : Bool

def pcmpstri [DecidableEq α] [LE α] [DecidableLE α] (imm : ℕ) (a b : Operand α n) :
    StringIndex :=
  let r := pcmpstr imm a b
  ⟨if imm.testBit 6 then greatestIndex r else leastIndex r, carry r, ended b⟩

/-! ## Indices -/

section Indices

variable {r : Fin n → Bool}

theorem carry_eq_false_iff : carry r = false ↔ ∀ i, r i = false := by
  unfold carry
  rw [decide_eq_false_iff_not, not_exists]
  exact forall_congr' fun i => Bool.eq_false_iff.symm

/-- The least index is the one whose bit is set with none below it. -/
theorem leastIndex_eq {k : Fin n} (hk : r k = true) (hlt : ∀ i, i < k → r i = false) :
    leastIndex r = k := by
  unfold leastIndex
  rw [List.findIdx_eq (by rw [List.length_finRange]; exact k.isLt)]
  constructor
  · rw [List.getElem_finRange]
    exact hk
  · intro j hj
    rw [List.getElem_finRange]
    exact hlt _ hj

/-- If a bit is set, the least index is that of the least one. -/
theorem exists_leastIndex (h : ∃ i, r i = true) :
    ∃ k : Fin n, leastIndex r = k ∧ r k = true ∧ ∀ i, i < k → r i = false := by
  have hlt : ∀ i, i < Fin.find (fun i => r i = true) h → r i = false := fun i hi =>
    Bool.eq_false_of_not_eq_true (Fin.find_min h hi)
  exact ⟨_, leastIndex_eq (Fin.find_spec h) hlt, Fin.find_spec h, hlt⟩

/-- If a bit is set, the greatest index is that of the greatest one. -/
theorem exists_greatestIndex (h : ∃ i, r i = true) :
    ∃ k : Fin n, greatestIndex r = k ∧ r k = true ∧ ∀ i, k < i → r i = false := by
  have hrev : ∃ i : Fin n, r i.rev = true := by
    obtain ⟨i, hi⟩ := h
    exact ⟨i.rev, by rwa [Fin.rev_rev]⟩
  obtain ⟨k, hk, hset, hlt⟩ := exists_leastIndex hrev
  refine ⟨k.rev, ?_, hset, ?_⟩
  · unfold greatestIndex
    rw [if_pos h, hk, Fin.val_rev]
    omega
  · intro i hi
    have hbelow := hlt i.rev (Fin.rev_lt_iff.mp hi)
    rwa [Fin.rev_rev] at hbelow

end Indices

/-! ## Operands that are windows -/

section Windows

variable {s : List α} {x : Fin n → α} {p : ℕ}

/-- The elements of a string that ends with `nul`, from one that is not behind the end on. -/
theorem implicitLength_eq_window [DecidableEq α] {nul : α} (hs : nul ∉ s) (hp : p ≤ s.length)
    (hx : ∀ i : Fin n, ∀ h : p + i.val < s.length, x i = s[p + i.val])
    (hnul : ∀ i : Fin n, p + i.val = s.length → x i = nul) :
    implicitLength nul x = window s p := by
  funext i
  unfold implicitLength window
  by_cases hi : p + i.val < s.length
  · have hvalid : ∀ j, j ≤ i → x j ≠ nul := by
      intro j hji heq
      have hj : p + j.val < s.length := by
        have := Fin.le_def.mp hji
        omega
      rw [hx j hj] at heq
      exact hs (heq ▸ List.getElem_mem hj)
    rw [if_pos hvalid, List.getElem?_eq_getElem hi, hx i hi]
  · have hinvalid : ¬ ∀ j, j ≤ i → x j ≠ nul := by
      intro h
      have hlt : s.length - p < n := by omega
      refine h ⟨s.length - p, hlt⟩ (Fin.le_def.mpr ?_) (hnul _ ?_)
      · show s.length - p ≤ i.val
        omega
      · show p + (s.length - p) = s.length
        omega
    rw [if_neg hinvalid, List.getElem?_eq_none (Nat.le_of_not_lt hi)]

/-- The elements of a string whose rest is given by a register. -/
theorem explicitLength_eq_window {len : ℤ} (hlen : len.natAbs = s.length - p)
    (hx : ∀ i : Fin n, ∀ h : p + i.val < s.length, x i = s[p + i.val]) :
    explicitLength len x = window s p := by
  funext i
  unfold explicitLength window
  by_cases hi : p + i.val < s.length
  · rw [if_pos (by omega), List.getElem?_eq_getElem hi, hx i hi]
  · rw [if_neg (by omega), List.getElem?_eq_none (Nat.le_of_not_lt hi)]

/-- A window reaches the end of its list or not. -/
theorem ended_window (hn : 0 < n) :
    ended (window s p : Operand α n) = decide (s.length < p + n) := by
  unfold ended
  rw [decide_eq_decide]
  constructor
  · rintro ⟨i, hi⟩
    have hlen := List.getElem?_eq_none_iff.mp hi
    have := i.isLt
    omega
  · intro h
    refine ⟨⟨n - 1, by omega⟩, List.getElem?_eq_none_iff.mpr ?_⟩
    show s.length ≤ p + (n - 1)
    omega

end Windows

/-! ## Aggregations on windows -/

section Aggregations

variable [DecidableEq α] [LE α] [DecidableLE α] {imm : ℕ} {a b : Operand α n} {i : Fin n}

/-- Equal each, negated: the elements that differ. -/
theorem pcmpstr_differ (hagg : aggregation imm = .equalEach) (hpol : polarity imm = .negative) :
    pcmpstr imm a b i = decide (a i ≠ b i) := by
  unfold pcmpstr intRes2 intRes1
  rw [hagg, hpol]
  dsimp only
  rw [sameEach_eq, decide_not]

/-- Equal each with an empty string: the elements behind the end. -/
theorem pcmpstr_behind (hagg : aggregation imm = .equalEach) (hpol : polarity imm = .positive)
    (ha : a i = none) : pcmpstr imm a b i = decide (b i = none) := by
  unfold pcmpstr intRes2 intRes1
  rw [hagg, hpol]
  dsimp only
  rw [sameEach_eq, ha, decide_eq_decide]
  exact eq_comm

/-- Equal ordered: what of `s` does not reach past the window stands in `t`. -/
theorem pcmpstr_ordered {s t : List α} {p : ℕ} (hagg : aggregation imm = .equalOrdered)
    (hpol : polarity imm = .positive) :
    pcmpstr imm (window s 0) (window t p) i =
      decide (s.take (n - i.val) <+: t.drop (p + i.val)) := by
  unfold pcmpstr intRes2 intRes1
  rw [hagg, hpol]
  dsimp only
  rw [decide_eq_decide, List.prefix_iff_getElem?]
  simp only [sameOrdered_iff, window]
  constructor
  · intro h j hj
    rw [List.length_take] at hj
    have hfit := h ⟨j, by omega⟩ ⟨i.val + j, by omega⟩ rfl s[j]
      (by rw [Nat.zero_add, List.getElem?_eq_getElem])
    rw [List.getElem?_drop, List.getElem_take, Nat.add_assoc]
    exact hfit
  · intro h j k hk e he
    obtain ⟨hj, rfl⟩ := List.getElem?_eq_some_iff.mp he
    have hfit := h j.val (by rw [List.length_take]; omega)
    rw [List.getElem?_drop, List.getElem_take, Nat.add_assoc, ← hk] at hfit
    rw [hfit]
    congr 1
    simp

/-- Equal any: the elements that are in `s`. -/
theorem pcmpstr_any {s t : List α} {p : ℕ} (hagg : aggregation imm = .equalAny)
    (hpol : polarity imm = .positive) (hs : s.length ≤ n) :
    pcmpstr imm (window s 0) (window t p) i = (t[p + i.val]?).any fun e => decide (e ∈ s) := by
  unfold pcmpstr intRes2 intRes1
  rw [hagg, hpol]
  dsimp only
  unfold window
  cases t[p + i.val]? with
  | none => simp [sameAny_iff]
  | some e =>
    rw [Option.any_some, decide_eq_decide]
    simp only [sameAny_iff, Nat.zero_add, Option.some.injEq]
    constructor
    · rintro ⟨j, x, hx, rfl⟩
      exact List.mem_of_getElem? hx
    · intro he
      obtain ⟨j, hj⟩ := List.mem_iff_getElem?.mp he
      have hlt := (List.getElem?_eq_some_iff.mp hj).1
      exact ⟨⟨j, by omega⟩, e, hj, rfl⟩

/-- Ranges, with one pair of bounds: the elements between them. -/
theorem pcmpstr_ranges {lo hi : α} {t : List α} {p : ℕ} (hagg : aggregation imm = .ranges)
    (hpol : polarity imm = .positive) (hn : 1 < n) :
    pcmpstr imm (window [lo, hi] 0) (window t p) i =
      (t[p + i.val]?).any fun e => decide (lo ≤ e ∧ e ≤ hi) := by
  unfold pcmpstr intRes2 intRes1
  rw [hagg, hpol]
  dsimp only
  unfold window
  cases t[p + i.val]? with
  | none => simp [between]
  | some e =>
    rw [Option.any_some, decide_eq_decide]
    simp only [Nat.zero_add]
    constructor
    · rintro ⟨j, k, hj, hk, hbetween⟩
      -- behind the pair the first operand has no elements
      have hj0 : j.val = 0 := by
        by_contra hne
        rw [List.getElem?_eq_none (show [lo, hi].length ≤ j.val by simp; omega)] at hbetween
        exact Bool.false_ne_true hbetween
      rw [hk, hj0] at hbetween
      exact of_decide_eq_true hbetween
    · intro he
      exact ⟨⟨0, by omega⟩, ⟨1, hn⟩, rfl, rfl, decide_eq_true he⟩

/-- **The end of a string.** Equal each with an empty string finds it. -/
theorem pcmpstri_end {s : List α} {p : ℕ} (hn : 0 < n) (hagg : aggregation imm = .equalEach)
    (hpol : polarity imm = .positive) (hidx : imm.testBit 6 = false) (ha : ∀ i, a i = none)
    {r : StringIndex} (hr : r = pcmpstri imm a (window s p)) :
    r.zf = decide (s.length < p + n) ∧
      (p ≤ s.length → s.length < p + n → r.rcx = s.length - p) := by
  subst hr
  unfold pcmpstri
  dsimp only
  rw [hidx, if_neg Bool.false_ne_true]
  refine ⟨ended_window hn, ?_⟩
  intro hp hend
  have hbit : ∀ i : Fin n, pcmpstr imm a (window s p) i = decide (s[p + i.val]? = none) :=
    fun i => pcmpstr_behind hagg hpol (ha i)
  refine leastIndex_eq (k := ⟨s.length - p, by omega⟩) ?_ fun i hi => ?_
  · rw [hbit, decide_eq_true_eq, List.getElem?_eq_none_iff]
    show s.length ≤ p + (s.length - p)
    omega
  · have hlt : i.val < s.length - p := Fin.lt_def.mp hi
    rw [hbit, decide_eq_false_iff_not, List.getElem?_eq_none_iff]
    omega

/-! ## Searching block by block

`P` tells which bits are set, by the places in the string. -/

section Searching

variable {P : ℕ → Bool} {p : ℕ} {r : StringIndex}

/-- What the index from below tells of the elements from `p` on. -/
inductive FirstFound (n : ℕ) (P : ℕ → Bool) (p : ℕ) (r : StringIndex) : Prop where
  | found (hcf : r.cf = true) (h : P (p + r.rcx) = true)
      (hbefore : ∀ j, j < r.rcx → P (p + j) = false)
  | absent (hcf : r.cf = false) (h : ∀ j, j < n → P (p + j) = false)

/-- What the index from above tells of the elements from `p` on. -/
inductive LastFound (n : ℕ) (P : ℕ → Bool) (p : ℕ) (r : StringIndex) : Prop where
  | found (hcf : r.cf = true) (hlt : r.rcx < n) (h : P (p + r.rcx) = true)
      (hbehind : ∀ j, r.rcx < j → j < n → P (p + j) = false)
  | absent (hcf : r.cf = false) (h : ∀ j, j < n → P (p + j) = false)

/-- INTERNAL: CF is clear. -/
theorem absent_of_carry {bits : Fin n → Bool} (hbit : ∀ i : Fin n, bits i = P (p + i.val))
    (hcf : carry bits = false) : ∀ j, j < n → P (p + j) = false := by
  intro j hj
  have hclear := carry_eq_false_iff.mp hcf ⟨j, hj⟩
  rwa [hbit] at hclear

/-- **A block searched from below.** -/
theorem pcmpstri_first (hidx : imm.testBit 6 = false)
    (hbit : ∀ i : Fin n, pcmpstr imm a b i = P (p + i.val)) (hr : r = pcmpstri imm a b) :
    FirstFound n P p r := by
  subst hr
  unfold pcmpstri
  dsimp only
  rw [hidx, if_neg Bool.false_ne_true]
  cases hcf : carry (pcmpstr imm a b) with
  | true =>
    obtain ⟨k, hk, hset, hlt⟩ := exists_leastIndex (of_decide_eq_true hcf)
    rw [hbit] at hset
    rw [hk]
    refine .found rfl hset ?_
    intro j hj
    have hclear := hlt ⟨j, Nat.lt_trans hj k.isLt⟩ (Fin.lt_def.mpr hj)
    rwa [hbit] at hclear
  | false => exact .absent rfl (absent_of_carry hbit hcf)

/-- **A block searched from above.** -/
theorem pcmpstri_last (hidx : imm.testBit 6 = true)
    (hbit : ∀ i : Fin n, pcmpstr imm a b i = P (p + i.val)) (hr : r = pcmpstri imm a b) :
    LastFound n P p r := by
  subst hr
  unfold pcmpstri
  dsimp only
  rw [hidx, if_pos rfl]
  cases hcf : carry (pcmpstr imm a b) with
  | true =>
    obtain ⟨k, hk, hset, hlt⟩ := exists_greatestIndex (of_decide_eq_true hcf)
    rw [hbit] at hset
    rw [hk]
    refine .found rfl k.isLt hset ?_
    intro j hkj hj
    have hclear := hlt ⟨j, hj⟩ (Fin.lt_def.mpr hkj)
    rwa [hbit] at hclear
  | false => exact .absent rfl (absent_of_carry hbit hcf)

end Searching

/-! ## Two strings block by block -/

/-- `s` and `t` are the same in front of `p`, and both reach that far. -/
structure AgreeTo (s t : List α) (p : ℕ) : Prop where
  le_left : p ≤ s.length
  le_right : p ≤ t.length
  same : ∀ i, i < p → s[i]? = t[i]?

/-- The first place where `s` and `t` differ; one may end there. -/
structure DifferAt (s t : List α) (p : ℕ) : Prop where
  differ : s[p]? ≠ t[p]?
  same : ∀ i, i < p → s[i]? = t[i]?

/-- What a comparison of the elements from `p` on tells: where the first difference is, that
the strings are the same and end there, or that all elements lie inside both. -/
inductive BlockOutcome (n : ℕ) (s t : List α) (p : ℕ) (r : StringIndex) : Prop where
  | differ (hcf : r.cf = true) (h : DifferAt s t (p + r.rcx))
  | same (hcf : r.cf = false) (hzf : r.zf = true) (h : s = t)
  | agree (hcf : r.cf = false) (hzf : r.zf = false) (h : AgreeTo s t (p + n))

section Strings

omit [DecidableEq α] [LE α] [DecidableLE α]

variable {s t : List α} {p q k : ℕ}

theorem DifferAt.unique (hp : DifferAt s t p) (hq : DifferAt s t q) : p = q := by
  rcases Nat.lt_trichotomy p q with hlt | heq | hlt
  · exact absurd (hq.same p hlt) hp.differ
  · exact heq
  · exact absurd (hp.same q hlt) hq.differ

theorem agreeTo_zero : AgreeTo s t 0 :=
  ⟨Nat.zero_le _, Nat.zero_le _, fun _ hi => absurd hi (Nat.not_lt_zero _)⟩

/-- The same for `k` more elements. -/
theorem AgreeTo.extend (hp : AgreeTo s t p) (h : ∀ j, j < k → s[p + j]? = t[p + j]?) :
    ∀ i, i < p + k → s[i]? = t[i]? := by
  intro i hi
  by_cases hip : i < p
  · exact hp.same i hip
  · obtain ⟨j, rfl⟩ := Nat.exists_eq_add_of_le (Nat.le_of_not_lt hip)
    apply h
    omega

/-- Strings that are the same up to a place behind the end of one. -/
theorem eq_of_same (h : ∀ i, i < p → s[i]? = t[i]?) (ht : t.length < p) : s = t := by
  have hlast := h (p - 1) (by omega)
  rw [List.getElem?_eq_none (show t.length ≤ p - 1 by omega), List.getElem?_eq_none_iff] at hlast
  apply List.ext_getElem?
  intro i
  by_cases hi : i < p
  · exact h i hi
  · rw [List.getElem?_eq_none (by omega), List.getElem?_eq_none (by omega)]

/-- Strings that are the same up to a place that one of them reaches. -/
theorem agreeTo_of_same (h : ∀ i, i < p → s[i]? = t[i]?) (ht : p ≤ t.length) :
    AgreeTo s t p := by
  refine ⟨?_, ht, h⟩
  by_contra hlt
  have hlast := h s.length (by omega)
  rw [List.getElem?_eq_none (Nat.le_refl _), eq_comm, List.getElem?_eq_none_iff] at hlast
  omega

end Strings

/-- **A block of two strings**, compared with equal each and negated. -/
theorem pcmpstri_block {s t : List α} {p : ℕ} (hn : 0 < n) (hagg : aggregation imm = .equalEach)
    (hpol : polarity imm = .negative) (hidx : imm.testBit 6 = false) (hp : AgreeTo s t p)
    {r : StringIndex} (hr : r = pcmpstri imm (window s p : Operand α n) (window t p)) :
    BlockOutcome n s t p r := by
  subst hr
  unfold pcmpstri
  dsimp only
  rw [hidx, if_neg Bool.false_ne_true]
  have hbit : ∀ i : Fin n, pcmpstr imm (window s p : Operand α n) (window t p) i =
      decide (s[p + i.val]? ≠ t[p + i.val]?) := fun i => pcmpstr_differ hagg hpol
  generalize pcmpstr imm (window s p : Operand α n) (window t p) = bits at hbit
  have hclear : ∀ i : Fin n, bits i = false → s[p + i.val]? = t[p + i.val]? := by
    intro i hi
    rw [hbit, decide_eq_false_iff_not, not_not] at hi
    exact hi
  cases hcf : carry bits with
  | true =>
    obtain ⟨k, hk, hset, hlt⟩ := exists_leastIndex (of_decide_eq_true hcf)
    rw [hbit, decide_eq_true_eq] at hset
    refine .differ rfl ?_
    show DifferAt s t (p + leastIndex bits)
    rw [hk]
    refine ⟨hset, hp.extend ?_⟩
    intro j hj
    exact hclear ⟨j, by omega⟩ (hlt _ (Fin.lt_def.mpr hj))
  | false =>
    have hsame : ∀ i, i < p + n → s[i]? = t[i]? := by
      apply hp.extend
      intro j hj
      exact hclear ⟨j, hj⟩ (carry_eq_false_iff.mp hcf ⟨j, hj⟩)
    by_cases hend : t.length < p + n
    · exact .same rfl ((ended_window hn).trans (decide_eq_true hend)) (eq_of_same hsame hend)
    · exact .agree rfl ((ended_window hn).trans (decide_eq_false hend))
        (agreeTo_of_same hsame (Nat.le_of_not_lt hend))

end Aggregations

end X86
