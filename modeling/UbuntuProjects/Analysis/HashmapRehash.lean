import Mathlib.Algebra.Order.BigOperators.Group.List
import UbuntuProjects.Analysis.HashmapEquivalence

/-!
# The table after `rehash`

`rehash` counts the entries with the counters of the buckets, asks for
`⌈size / load_factor⌉` new buckets and moves the nodes one by one. The invariant of the two
loops is `HoldsCounted`: the new table holds the nodes moved so far, each in the bucket of
its hash, and its counters are right. What the old table looks like does not matter, but
for its counters: they must not be too small.
-/

set_option autoImplicit false

namespace UbuntuProjects.Hashmap

open Maps (Placed)

variable {K V : Type} {H : Keys K} {l : List (K × V)}

/-! ## The number of buckets -/

/-- INTERNAL: moving a node keeps the number of buckets. -/
theorem moveNode_count {e : K × V} {s s' : TsExHashmap K V} (h : moveNode H e s = some s') :
    s'.mBucketsCount = s.mBucketsCount := by
  unfold moveNode Buckets.onBucket at h
  cases hfor : s.bucketFor H e.1 with
  | none =>
    rw [hfor] at h
    cases h
  | some i =>
    cases hb : s.mBuckets[i]? with
    | none =>
      rw [hfor] at h
      simp [hb] at h
    | some b =>
      rw [hfor] at h
      simp only [hb, Option.bind_eq_bind, Option.bind_some, Option.pure_def,
        Option.map_some, Option.some.injEq] at h
      rw [← h]

/-- INTERNAL: moving the nodes of one bucket keeps the number of buckets. -/
theorem moveNodes_count (d : List (K × V)) {s s' : TsExHashmap K V}
    (h : moveNodes H d s = some s') : s'.mBucketsCount = s.mBucketsCount := by
  induction d generalizing s with
  | nil =>
    cases h
    rfl
  | cons e d ih =>
    rw [moveNodes] at h
    obtain ⟨s₁, hs₁, hrest⟩ := Option.bind_eq_some_iff.mp h
    exact (ih hrest).trans (moveNode_count hs₁)

/-- INTERNAL: moving all nodes keeps the number of buckets. -/
theorem moveBuckets_count (bs : List (Bucket K V)) {s s' : TsExHashmap K V}
    (h : moveBuckets H bs s = some s') : s'.mBucketsCount = s.mBucketsCount := by
  induction bs generalizing s with
  | nil =>
    cases h
    rfl
  | cons b bs ih =>
    rw [moveBuckets] at h
    obtain ⟨s₁, hs₁, hrest⟩ := Option.bind_eq_some_iff.mp h
    exact (ih hrest).trans (moveNodes_count b.mData hs₁)

/-! ## The load factor -/

/-- INTERNAL: the rounded number of buckets is enough. -/
theorem le_mul_rehashCount (sz : ℕ) (lf : LoadFactor) :
    (sz : ℚ) ≤ lf.val * rehashCount sz lf := by
  have hceil : (sz : ℚ) / lf.val ≤ rehashCount sz lf := Nat.le_ceil _
  have hmul := mul_le_mul_of_nonneg_left hceil lf.pos.le
  rw [mul_div_cancel₀ _ lf.pos.ne'] at hmul
  exact hmul

/-- The counter of every bucket is at least the number of its entries. -/
def CountedEnough (s : TsExHashmap K V) : Prop :=
  ∀ b ∈ s.mBuckets, b.mData.length ≤ b.mSize

/-- INTERNAL: then `size` is at least the number of all entries. -/
theorem CountedEnough.le_size {s : TsExHashmap K V} (h : CountedEnough s) :
    s.copy.length ≤ s.size := by
  unfold TsExHashmap.copy TsExHashmap.size
  rw [List.length_flatten, List.map_map]
  exact List.sum_le_sum h

/-- The maps that calls reach from a new map are counted enough. -/
theorem run_countedEnough (H : LawfulKeys K) {n : ℕ} (hn : 0 < n) (cmds : List (Cmd K V))
    (hr : RehashesRepresentable H.toKeys (TsExHashmap.new n) cmds) :
    ∃ rs s, TsExHashmap.run H.toKeys (TsExHashmap.new n) cmds = some (rs, s) ∧
      CountedEnough s := by
  obtain ⟨s, hs, h⟩ := TsExHashmap.run_holds
    (m := (Maps.AssocMap.empty : Maps.AssocMap H.keyEq V)) cmds
    (new_holdsCounted H.toKeys hn) hr
  refine ⟨_, s, hs, ?_⟩
  intro b hb
  exact (h.counted b hb).ge

/-! ## The whole call -/

/-- INTERNAL: the invariant of the loops at their end, whatever the old table looks like. -/
theorem rehash_holdsCounted {s : TsExHashmap K V} {lf : LoadFactor} (hs : s.size ≠ 0)
    (hfit : rehashCount s.size lf < 2 ^ 64) :
    ∃ s', TsExHashmap.rehash H s lf true = some (.returned, s') ∧ HoldsCounted H s' s.copy ∧
      s'.mBucketsCount = rehashCount s.size lf := by
  obtain ⟨s', hs', h'⟩ := moveBuckets_holds s.mBuckets
    (new_holdsCounted (V := V) H ((rehashCount_pos lf).mpr hs))
  rw [List.append_nil] at h'
  refine ⟨s', ?_, h', moveBuckets_count s.mBuckets hs'⟩
  rw [(rehash_eq hfit).2, hs', Option.map_some]

/-- INTERNAL: the only bucket an entry is in. -/
theorem Holds.mem_bucket_iff {s : TsExHashmap K V} (h : Holds H Bucket.mData s l) {e : K × V}
    (he : e ∈ l) (i : ℕ) :
    (∃ b, s.mBuckets[i]? = some b ∧ e ∈ b.mData) ↔ i = H.hasher e.1 % s.mBucketsCount := by
  have honly : ∀ j b, s.mBuckets[j]? = some b → e ∈ b.mData →
      H.hasher e.1 % s.mBucketsCount = j := by
    intro j b hb heb
    have hdata : (s.mBuckets.map Bucket.mData)[j]? = some b.mData := by
      rw [List.getElem?_map, hb]
      rfl
    exact h.placed j b.mData hdata e heb
  constructor
  · rintro ⟨b, hb, heb⟩
    exact (honly i b hb heb).symm
  · rintro rfl
    obtain ⟨d, hd, hed⟩ := List.mem_flatten.mp (h.entries.mem_iff.mpr he)
    obtain ⟨b, hb, rfl⟩ := List.mem_map.mp hd
    obtain ⟨j, hj⟩ := List.mem_iff_getElem?.mp hb
    rw [honly j b hj hed]
    exact ⟨b, hj, hed⟩

/-- **`rehash` builds a right table.** Let a map have entries, its counters not be too small,
and `size_type` represent `⌈size / load_factor⌉`. If so many buckets cannot be allocated,
`rehash` throws and changes nothing. Otherwise it returns, and its table has as many buckets;
every entry of the old table is in the bucket of its hash and in no other, the entries are the
same ones, the counters are right, and the size is at most the load factor times the number of
buckets.
SRCLINE: threadsafe_extended_hashmap.h:298-325 -/
theorem rehash_correct (H : Keys K) (s : TsExHashmap K V) (lf : LoadFactor)
    (hcounted : CountedEnough s) (hne : s.copy ≠ [])
    (hfit : ⌈(s.size : ℚ) / lf.val⌉₊ < 2 ^ 64) :
    TsExHashmap.rehash H s lf false = some (.thrown, s) ∧
    ∃ s', TsExHashmap.rehash H s lf true = some (.returned, s') ∧
      s'.mBucketsCount = ⌈(s.size : ℚ) / lf.val⌉₊ ∧
      s'.mBuckets.length = s'.mBucketsCount ∧
      (∀ e ∈ s.copy, ∀ i, (∃ b, s'.mBuckets[i]? = some b ∧ e ∈ b.mData) ↔
        i = H.hasher e.1 % s'.mBucketsCount) ∧
      s'.copy.Perm s.copy ∧
      (∀ b ∈ s'.mBuckets, b.mSize = b.mData.length) ∧
      (s'.size : ℚ) ≤ lf.val * s'.mBucketsCount ∧
      s'.loadFactor ≤ lf.val := by
  have hle := hcounted.le_size
  have hpos : 0 < s.copy.length := List.length_pos_iff.mpr hne
  obtain ⟨s', hs', h', hcount⟩ := rehash_holdsCounted (H := H) (s := s) (by omega) hfit
  have hsize : (s'.size : ℚ) ≤ lf.val * s'.mBucketsCount := by
    rw [hcount, h'.size_eq]
    calc (s.copy.length : ℚ) ≤ s.size := by exact_mod_cast hle
      _ ≤ lf.val * rehashCount s.size lf := le_mul_rehashCount s.size lf
  have hbuckets : (0 : ℚ) < s'.mBucketsCount := by exact_mod_cast h'.holds.pos
  refine ⟨(rehash_eq hfit).1, s', hs', hcount, h'.holds.count.symm, ?_, h'.holds.entries,
    h'.counted, hsize, ?_⟩
  · intro e he i
    exact h'.holds.mem_bucket_iff he i
  · unfold TsExHashmap.loadFactor
    rw [div_le_iff₀ hbuckets]
    exact hsize

/-- One entry and a load factor that asks for more buckets than `size_type` represents. -/
theorem rehash_undefined :
    CountedEnough (⟨1, [⟨[(5, 0)], 1⟩]⟩ : TsExHashmap ℕ ℕ) ∧
      TsExHashmap.copy (⟨1, [⟨[(5, 0)], 1⟩]⟩ : TsExHashmap ℕ ℕ) ≠ [] ∧
      ∀ allocated, TsExHashmap.rehash natKeys.toKeys (⟨1, [⟨[(5, 0)], 1⟩]⟩ : TsExHashmap ℕ ℕ)
        ⟨1 / 2 ^ 70, by norm_num⟩ allocated = none := by
  refine ⟨fun b hb => ?_, List.cons_ne_nil _ _, fun allocated => ?_⟩
  · rw [List.mem_singleton.mp hb]
    exact le_rfl
  · have hsize : TsExHashmap.size (⟨1, [⟨[(5, 0)], 1⟩]⟩ : TsExHashmap ℕ ℕ) = 1 := rfl
    have hcast : toSizeType (2 ^ 70) = none := by decide
    rw [TsExHashmap.rehash, hsize, rehashCount_one, hcast]
    rfl

/-- Two entries are moved from one bucket to the four that a load factor of one half asks
for. -/
theorem rehash_correct_two :
    TsExHashmap.rehash natKeys.toKeys (⟨1, [⟨[(5, 0), (2, 1)], 2⟩]⟩ : TsExHashmap ℕ ℕ)
        ⟨1 / 2, by norm_num⟩ false = some (.thrown, ⟨1, [⟨[(5, 0), (2, 1)], 2⟩]⟩) ∧
    ∃ s', TsExHashmap.rehash natKeys.toKeys (⟨1, [⟨[(5, 0), (2, 1)], 2⟩]⟩ : TsExHashmap ℕ ℕ)
        ⟨1 / 2, by norm_num⟩ true = some (.returned, s') ∧
      s'.mBucketsCount = ⌈((2 : ℕ) : ℚ) / (1 / 2)⌉₊ ∧
      s'.mBuckets.length = s'.mBucketsCount ∧
      (∀ e ∈ [((5 : ℕ), (0 : ℕ)), (2, 1)], ∀ i,
        (∃ b, s'.mBuckets[i]? = some b ∧ e ∈ b.mData) ↔ i = e.1 % s'.mBucketsCount) ∧
      s'.copy.Perm [(5, 0), (2, 1)] ∧
      (∀ b ∈ s'.mBuckets, b.mSize = b.mData.length) ∧
      (s'.size : ℚ) ≤ 1 / 2 * s'.mBucketsCount ∧
      s'.loadFactor ≤ 1 / 2 := by
  apply rehash_correct natKeys.toKeys ⟨1, [⟨[(5, 0), (2, 1)], 2⟩]⟩ ⟨1 / 2, by norm_num⟩
  · intro b hb
    rw [List.mem_singleton.mp hb]
    exact le_rfl
  · exact List.cons_ne_nil _ _
  · have hdiv : ((2 : ℕ) : ℚ) / (1 / 2) = ((4 : ℕ) : ℚ) := by norm_num
    change ⌈((2 : ℕ) : ℚ) / (1 / 2)⌉₊ < _
    rw [hdiv, Nat.ceil_natCast]
    decide

end UbuntuProjects.Hashmap
