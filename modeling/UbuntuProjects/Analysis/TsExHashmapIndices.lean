import UbuntuProjects.Analysis.TsExHashmapInvariant

/-!
# `ts_ex_hashmap`: the index of a bucket

While no `rehash` holds `m_mut`, `m_buckets_count` is the number of the buckets and not
zero, so `bucket_for` finds a bucket for every key: in every run in which `rehash` finds
that the counters are not all zero (`bucket_index_in_range`).

A `rehash` that finds an empty map makes `ceil(0/load_factor)` buckets, which is none. The
map has then no bucket for any key, and the next call for a key divides by zero
(`bucket_index_empty`).
-/

set_option autoImplicit false

namespace UbuntuProjects.TsExHashmap

open Concurrency (Config Run anyStep)
open Hashmap

/-- **The index of a bucket is in range.** In every run of a map constructed with at least
one bucket in which every `rehash` that takes `m_mut` finds counters that are not all
zero: outside `rehash`'s critical section `m_buckets_count` is the number of the buckets
and at least 1, and `bucket_for` does not divide by zero and stays in range. -/
theorem bucket_index_in_range {Tid K V : Type} [DecidableEq Tid] (H : Keys K) (n : ℕ)
    (hn : 1 ≤ n) {tr : List (Tid × Lab K V)} {c : Config Tid (Pc K V) (Shared Tid K V)}
    (h : Run (HashmapStep H) RehashNonempty (newMap Tid K V n) tr c) :
    ((∀ t, c.sh.mMut t ≠ .exclusive) →
      c.sh.mBucketsCount = c.sh.mBuckets.length ∧ 1 ≤ c.sh.mBucketsCount) ∧
    ∀ t o, c.pc t = .bucketFor o → c.sh.mBucketsCount ≠ 0 ∧
      H.hasher o.key % c.sh.mBucketsCount < c.sh.mBuckets.length := by
  obtain ⟨_, hI, hA⟩ := outline_run hn h
  have hcount : ∀ {s : Shared Tid K V}, Consistent s.table →
      s.mBucketsCount = s.mBuckets.length ∧ 1 ≤ s.mBucketsCount := by
    intro s hc
    have hlen : s.mBucketsCount = s.mBuckets.length := by
      simpa [Shared.table] using hc.count
    have hpos : 0 < s.mBuckets.length := by
      simpa [Shared.table] using hc.pos
    exact ⟨hlen, hlen ▸ hpos⟩
  refine ⟨fun hno => hcount (hI.consistent hno), fun t o hpc => ?_⟩
  have ht := hA t
  rw [hpc] at ht
  obtain ⟨hlen, hpos⟩ := hcount (consistent_of_shared hI ht rfl)
  refine ⟨by omega, ?_⟩
  rw [← hlen]
  exact Nat.mod_lt _ hpos

/-- Two threads are about to choose a bucket for their keys. -/
theorem bucket_index_in_range_sharing :
    ∃ (tr : List (Bool × Lab ℕ ℕ)) (c : Config Bool (Pc ℕ ℕ) (Shared Bool ℕ ℕ)),
      Run (HashmapStep natKeys.toKeys) RehashNonempty (newMap Bool ℕ ℕ 3) tr c ∧
      c.pc true = .bucketFor (.insert 5 1) ∧ c.pc false = .bucketFor (.remove 8) ∧
      ∀ t o, c.pc t = .bucketFor o → c.sh.mBucketsCount ≠ 0 ∧
        natKeys.hasher o.key % c.sh.mBucketsCount < c.sh.mBuckets.length := by
  have h₀ : Run (HashmapStep natKeys.toKeys) RehashNonempty (newMap Bool ℕ ℕ 3) [] _ := .nil
  have h₁ := h₀.snoc true (fun lf h => by cases h) (.client (.call _ (.key (.insert 5 1))))
  have h₂ := h₁.snoc true (fun lf h => by cases h) (.key (.lock fun u => by cases u <;> decide))
  have h₃ := h₂.snoc false (fun lf h => by cases h) (.client (.call _ (.key (.remove 8))))
  have h₄ := h₃.snoc false (fun lf h => by cases h) (.key (.lock fun u => by cases u <;> decide))
  exact ⟨_, _, h₄, rfl, rfl, (bucket_index_in_range natKeys.toKeys 3 (by decide) h₄).2⟩

/-- A load factor of 1. -/
def loadFactorOne : LoadFactor := ⟨1, by norm_num⟩

/-- INTERNAL: `rehash` of a map without entries asks for no bucket. -/
theorem rehash_empty {Tid : Type} [DecidableEq Tid] {t : Tid} {s : Shared Tid ℕ ℕ}
    {c : Cursor} (hc : c.index = c.last) :
    HashmapStep natKeys.toKeys t (.rehashSum loadFactorOne c 0) s none
      (.rehashMake loadFactorOne 0) s := by
  have hzero : rehashCount 0 loadFactorOne = 0 := by simp [rehashCount]
  have hstep : RehashStep natKeys.toKeys t (.rehashSum loadFactorOne c 0) s none
      (.rehashMake loadFactorOne (rehashCount 0 loadFactorOne)) s := .sumEnd hc
  rw [hzero] at hstep
  exact .rehash hstep

/-- `rehash` of a map without entries leaves no bucket; a call of `insert` then divides by
zero. -/
theorem bucket_index_empty :
    ∃ (tr : List (Unit × Lab ℕ ℕ)) (c : Config Unit (Pc ℕ ℕ) (Shared Unit ℕ ℕ)),
      Run (HashmapStep natKeys.toKeys) anyStep (newMap Unit ℕ ℕ 1) tr c ∧
      (∀ t, c.sh.mMut t ≠ .exclusive) ∧ c.sh.mBucketsCount = 0 ∧
      c.pc () = .bucketFor (.insert 5 1) ∧
      HashmapStep natKeys.toKeys () (c.pc ()) c.sh none .undefined c.sh := by
  have h₀ : Run (HashmapStep natKeys.toKeys) anyStep (newMap Unit ℕ ℕ 1) [] _ := .nil
  have h₁ := h₀.snoc () trivial (.client (.call _ (.rehash loadFactorOne)))
  have h₂ := h₁.snoc () trivial (.rehash (.lock fun u => by cases u; rfl))
  have h₃ := h₂.snoc () trivial (.rehash (.sum (by decide) rfl))
  have h₄ := h₃.snoc () trivial (rehash_empty rfl)
  have h₅ := h₄.snoc () trivial (.rehash (.make _ _ _))
  have h₆ := h₅.snoc () trivial (.rehash (.moveNext (by decide) rfl rfl))
  have h₇ := h₆.snoc () trivial (.rehash (.moveEnd rfl))
  have h₈ := h₇.snoc () trivial (.rehash (.swap _ _))
  have h₉ := h₈.snoc () trivial (.rehash (.count _ _))
  have h₁₀ := h₉.snoc () trivial (.rehash (.unlock _ _))
  have h₁₁ := h₁₀.snoc () trivial (.client (.ret _ _))
  have h₁₂ := h₁₁.snoc () trivial (.client (.call _ (.key (.insert 5 1))))
  have h₁₃ := h₁₂.snoc () trivial (.key (.lock fun u => by cases u; decide))
  exact ⟨_, _, h₁₃, fun u => by cases u; decide, rfl, rfl, .key (.bucketFor _ _)⟩

end UbuntuProjects.TsExHashmap
