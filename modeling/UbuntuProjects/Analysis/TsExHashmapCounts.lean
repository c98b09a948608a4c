import UbuntuProjects.Analysis.TsExHashmapLinearizable

/-!
# `ts_ex_hashmap`: the counters of the buckets

The counter of a bucket covers the bucket's entries at any time (`Tally`), with two
corrections for a call that is between the list and the counter: it has counted an entry
that is not in the list (`Pc.counted`), or has pushed one that is not counted
(`Pc.uncounted`). A bucket that nobody works in is covered, and so are all buckets while
`rehash` counts them and after it has swapped in its new vector.

The counters are exact as long as no exception leaves `push_front` in `insert_or_assign`,
which counts first (`counters_exact`); after such an exception the counter stays one ahead
of the list (`counter_ahead`). `insert` pushes first and has no such case.
-/

set_option autoImplicit false

namespace UbuntuProjects.TsExHashmap

open Concurrency (Config Run Step Program Hold SharedMutex)
open Hashmap
open Maps (KeyEq AssocMap)

variable {Tid K V : Type}

/-! ## Counters and entries -/

/-- A counter covers the entries, and counts no more if it is to be exact. -/
structure Tally (exact : Prop) (entries counter : ℕ) : Prop where
  covers : entries ≤ counter
  exact : exact → counter ≤ entries

/-- What the counter of the bucket counts and the list does not have. -/
def Pc.counted : Pc K V → ℕ
  | .push _ _ _ true | .countErased _ => 1
  | _ => 0

/-- What the list of the bucket has and the counter does not count. -/
def Pc.uncounted : Pc K V → ℕ
  | .countPushed _ => 1
  | _ => 0

/-- The control points of `rehash` at which the counters are those of the entries. -/
def Pc.countsAll : Pc K V → Prop
  | .rehashSum _ _ _ | .rehashMake _ _ | .rehashCount _ | .rehashUnlock _ => True
  | _ => False

/-- The buckets that nobody works in. -/
def SharedTally (exact : Prop) (s : Shared Tid K V) : Prop :=
  (∀ t, s.mMut t ≠ .exclusive) → ∀ i b, s.table.mBuckets[i]? = some b →
    (∀ t, s.holdAt i t ≠ .exclusive) → Tally exact b.mData.length b.mSize

/-- The buckets that a thread at a control point works in. -/
structure HeldTally (exact : Prop) (p : Pc K V) (T : TsExHashmap K V) : Prop where
  bucket : ∀ i, p.bucketHeld = some (i, .exclusive) → ∀ b, T.mBuckets[i]? = some b →
    Tally exact (b.mData.length + p.counted) (b.mSize + p.uncounted)
  all : p.countsAll → ∀ b ∈ T.mBuckets, Tally exact b.mData.length b.mSize

/-- The counters in a configuration. -/
structure TallyInv (exact : Prop) (c : Config Tid (Pc K V) (Shared Tid K V)) : Prop where
  shared : SharedTally exact c.sh
  held : ∀ t, HeldTally exact (c.pc t) c.sh.table

/-- An exception leaves `push_front` after `++m_size`.
SRCLINE: threadsafe_extended_hashmap.h:137-139, 150-152 -/
def PushThrows (p p' : Pc K V) : Prop :=
  ∃ k m r, p = .push k m r true ∧ p' = .bucketUnlock .exclusive r .thrown

/-! ## Steps -/

section Steps

variable {H : Keys K} {exact : Prop} {s s' : Shared Tid K V} {t u : Tid} {p p' : Pc K V}
  {l : Lab K V} {i : ℕ} {b : LockedBucket Tid K V}

/-- INTERNAL: the steps of the other threads leave the buckets a thread works in. -/
theorem HeldTally.rely (h : HeldTally exact p s.table) (hA : Asserts H u p s)
    (hr : Rely u s s') : HeldTally exact p s'.table := by
  constructor
  · intro i hheld b hb
    have hown : s.holdAt i u ≠ .free := by
      rw [hA.bucket i, hheld]
      simp [heldAt]
    exact h.bucket i hheld b (hr.owned i hown ▸ hb)
  · intro hp
    have hex : s.mMut u = .exclusive := by
      rw [hA.map]
      cases p <;> first | rfl | exact absurd hp id
    rw [hr.table hex]
    exact h.all hp

/-- INTERNAL: a thread that works in no bucket exclusively. -/
theorem heldTally_of_none {T : TsExHashmap K V}
    (hb : ∀ i, p.bucketHeld ≠ some (i, .exclusive)) (hp : ¬p.countsAll) :
    HeldTally exact p T :=
  ⟨fun i hi => absurd hi (hb i), fun h => absurd h hp⟩

/-- INTERNAL: a thread that works in one bucket and has no correction to make. -/
theorem HeldTally.keep {T : TsExHashmap K V} (h : HeldTally exact p T)
    (hb : p'.bucketHeld = p.bucketHeld) (hc : p'.counted = p.counted)
    (hu : p'.uncounted = p.uncounted) (hp : ¬p'.countsAll) : HeldTally exact p' T := by
  refine ⟨fun i hi b hget => ?_, fun h => absurd h hp⟩
  rw [hc, hu]
  exact h.bucket i (hb ▸ hi) b hget

/-- INTERNAL: a thread that does not hold `m_mut` of the map exclusively takes it or
releases it. -/
theorem SharedTally.holdMap [DecidableEq Tid] {x : Hold} (h : SharedTally exact s)
    (hA : Asserts H t p s) (hm : p.mapHold ≠ .exclusive) :
    SharedTally exact (s.holdMap t x) := by
  intro hno
  refine h fun u => ?_
  by_cases hut : u = t
  · subst hut
    rwa [hA.map]
  · have hu : Function.update s.mMut t x u ≠ .exclusive := hno u
    rwa [Function.update_of_ne hut] at hu

/-- INTERNAL: nobody works in a bucket while `m_mut` is free. -/
theorem SharedTally.all (h : SharedTally exact s) (hI : SharedInv H s)
    (hfree : ∀ u, s.mMut u = .free) :
    ∀ b ∈ s.table.mBuckets, Tally exact b.mData.length b.mSize := by
  intro b hb
  obtain ⟨i, hi⟩ := List.mem_iff_getElem?.mp hb
  apply h (SharedMutex.not_exclusive_of_free hfree) i b hi
  exact SharedMutex.not_exclusive_of_free (hI.holdAt_of_free hfree i)

/-- INTERNAL: nobody works in a bucket while the table is held exclusively. -/
theorem sharedTally_of_exclusive (h : s.mMut t = .exclusive) : SharedTally exact s :=
  fun hno => absurd h (hno t)

/-- INTERNAL: a change in a bucket that the thread holds exclusively, before and after. -/
theorem SharedTally.change {f : Bucket K V → Bucket K V} (h : SharedTally exact s)
    (hget : s.mBuckets[i]? = some b) (hex : b.mMut t = .exclusive) :
    SharedTally exact (s.setBucket i (b.change f)) := by
  intro hno j b' hb' hfree
  rw [Shared.setBucket_table] at hb'
  rw [Shared.setBucket_holdAt hget] at hfree
  by_cases hj : j = i
  · subst hj
    rw [if_pos rfl] at hfree
    exact absurd hex (hfree t)
  · rw [if_neg hj] at hfree
    simp only [List.getElem?_set_ne (Ne.symm hj)] at hb'
    exact h hno j b' hb' hfree

/-- INTERNAL: a change in the bucket that the thread works in. -/
theorem HeldTally.change {f : Bucket K V → Bucket K V} (h : HeldTally exact p s.table)
    (hget : s.mBuckets[i]? = some b) (hp : p.bucketHeld = some (i, .exclusive))
    (hp' : p'.bucketHeld = some (i, .exclusive)) (hall : ¬p'.countsAll)
    (hf : Tally exact (b.mData.length + p.counted) (b.mSize + p.uncounted) →
      Tally exact ((f b.toBucket).mData.length + p'.counted)
        ((f b.toBucket).mSize + p'.uncounted)) :
    HeldTally exact p' (s.setBucket i (b.change f)).table := by
  refine ⟨fun j hj b' hb' => ?_, fun h => absurd h hall⟩
  obtain rfl : i = j := by simpa [hp'] using hj
  have hi := (List.getElem?_eq_some_iff.mp (Shared.table_getElem? hget)).1
  rw [Shared.setBucket_table] at hb'
  simp only [List.getElem?_set_self hi, Option.some.injEq] at hb'
  subst hb'
  exact hf (h.bucket i hp b.toBucket (Shared.table_getElem? hget))

/-- INTERNAL: a thread's mutex of the bucket that it holds exclusively. -/
theorem Asserts.exclusive (hA : Asserts H t p s) (hget : s.mBuckets[i]? = some b)
    (hp : p.bucketHeld = some (i, .exclusive)) : b.mMut t = .exclusive := by
  rw [← Shared.holdAt_eq hget, hA.bucket i, hp]
  simp [heldAt]

/-- INTERNAL: calls and returns. -/
theorem clientStep_tally {T : TsExHashmap K V} (h : ClientStep t p s l p' s') :
    HeldTally exact p' T := by
  cases h with
  | call _ op =>
    cases op <;> exact heldTally_of_none (fun i => by simp [Op.entry, Pc.bucketHeld]) id
  | ret _ r => exact heldTally_of_none (fun i => by simp [Pc.bucketHeld]) id

/-- INTERNAL: what follows the search has no correction to make. -/
theorem afterFind_counts (H : Keys K) (o : KeyOp K V) (r : BucketRef) (b : Bucket K V) :
    (afterFind H o r b).counted = 0 ∧ (afterFind H o r b).uncounted = 0 ∧
      ¬(afterFind H o r b).countsAll := by
  cases o with
  | insert k m =>
    cases hf : findEntry H k b.mData <;>
      simp [afterFind, hf, Pc.counted, Pc.uncounted, Pc.countsAll]
  | insertOrAssign k m =>
    cases hf : findEntry H k b.mData <;>
      simp [afterFind, hf, Pc.counted, Pc.uncounted, Pc.countsAll]
  | remove k =>
    cases hf : findBeforeEntry H k b.mData <;>
      simp [afterFind, hf, Pc.counted, Pc.uncounted, Pc.countsAll]
  | mappedFor k => exact ⟨rfl, rfl, id⟩

/-- INTERNAL: the search keeps the bucket covered. -/
theorem heldTally_afterFind {T : TsExHashmap K V} {o : KeyOp K V} {r : BucketRef}
    (h : HeldTally exact (.find o r) T) (b : Bucket K V) :
    HeldTally exact (afterFind H o r b) T := by
  obtain ⟨-, hheld⟩ := afterFind_holds H o r b
  obtain ⟨hcounted, huncounted, hall⟩ := afterFind_counts H o r b
  exact h.keep hheld hcounted huncounted hall

/-- INTERNAL: who takes the mutex of a bucket exclusively finds the counter covered. -/
theorem SharedTally.bucketLock [DecidableEq Tid] {x : Hold} {r : BucketRef}
    {o : KeyOp K V} (hS : SharedTally exact s) (hno : ∀ u, s.mMut u ≠ .exclusive)
    (hget : s.mBuckets[r.index]? = some b) (hg : b.mMut.Grants (bucketHold o)) :
    HeldTally exact (.find o r) (s.setBucket r.index (b.hold t x)).table := by
  rw [Shared.setBucket_hold_table hget]
  refine ⟨fun i hi b' hb' => ?_, fun h => absurd h id⟩
  obtain ⟨rfl, hex⟩ : r.index = i ∧ bucketHold o = .exclusive := by
    simpa [Pc.bucketHeld] using hi
  refine hS hno r.index b' hb' fun u => ?_
  rw [hex] at hg
  rw [Shared.holdAt_eq hget, hg u]
  decide

/-- INTERNAL: releasing or taking the mutex of a bucket keeps the buckets that nobody
works in covered. -/
theorem SharedTally.hold [DecidableEq Tid] {x : Hold} (hS : SharedTally exact s)
    (hget : s.mBuckets[i]? = some b)
    (hex : b.mMut t = .exclusive → (∀ u, u ≠ t → b.mMut u ≠ .exclusive) →
      Tally exact b.mData.length b.mSize) :
    SharedTally exact (s.setBucket i (b.hold t x)) := by
  have htable := Shared.setBucket_hold_table hget t x
  intro hno j b' hb' hfree
  rw [htable] at hb'
  rw [Shared.setBucket_holdAt hget] at hfree
  by_cases hj : j = i
  · subst hj
    rw [if_pos rfl] at hfree
    have hother : ∀ u, u ≠ t → b.mMut u ≠ .exclusive := fun u hu => by
      have hu' : Function.update b.mMut t x u ≠ .exclusive := hfree u
      rwa [Function.update_of_ne hu] at hu'
    obtain rfl := Shared.table_inj hget hb'
    by_cases ht : b.mMut t = .exclusive
    · exact hex ht hother
    · refine hS hno j b.toBucket hb' fun u => ?_
      rw [Shared.holdAt_eq hget]
      by_cases hut : u = t
      · subst hut
        exact ht
      · exact hother u hut
  · rw [if_neg hj] at hfree
    exact hS hno j b' hb' hfree

/-- INTERNAL: the calls for one key around the work in the bucket. -/
theorem keyStep_tally [DecidableEq Tid] (hI : SharedInv H s) (hA : Asserts H t p s)
    (hS : SharedTally exact s) (hT : HeldTally exact p s.table)
    (h : KeyStep H t p s l p' s') : SharedTally exact s' ∧ HeldTally exact p' s'.table := by
  -- the mutex of the map is shared, so nobody holds it exclusively
  have hno : p.mapHold = .shared → ∀ u, s.mMut u ≠ .exclusive := fun hm =>
    hI.map.not_exclusive_of_shared (hA.map.trans hm)
  cases h with
  | lock hg =>
    exact ⟨hS.holdMap hA (by simp [Pc.mapHold]), heldTally_of_none (by simp [Pc.bucketHeld]) id⟩
  | bucketFor _ o =>
    refine ⟨hS, ?_⟩
    unfold afterBucketFor
    split <;> exact heldTally_of_none (by simp [Pc.bucketHeld]) id
  | @bucketLock _ o r b hr hg =>
    have hget := (Shared.deref_eq_some hr).2
    refine ⟨hS.hold hget fun hex _ => ?_, hS.bucketLock (hno rfl) hget hg⟩
    -- the mutex was granted, so `t` did not have it
    have hfree : b.mMut t = .free := by
      rw [← Shared.holdAt_eq hget, hA.bucket]
      rfl
    rw [hfree] at hex
    cases hex
  | find hr => exact ⟨hS, heldTally_afterFind hT _⟩
  | findThrow _ o r => exact ⟨hS, hT.keep rfl rfl rfl id⟩
  | @bucketUnlock _ x r res b hr =>
    have hget := (Shared.deref_eq_some hr).2
    refine ⟨hS.hold hget fun hex _ => ?_, heldTally_of_none (by simp [Pc.bucketHeld]) id⟩
    have hx : x = .exclusive := by
      rw [← Shared.holdAt_eq hget, hA.bucket] at hex
      simpa [heldAt, Pc.bucketHeld] using hex
    exact hT.bucket r.index (by rw [hx]; rfl) b.toBucket (Shared.table_getElem? hget)
  | mapUnlock _ res =>
    exact ⟨hS.holdMap hA (by simp [Pc.mapHold]), heldTally_of_none (by simp [Pc.bucketHeld]) id⟩

/-- INTERNAL: the work in the bucket, if no exception leaves `push_front` after
`++m_size`. -/
theorem bucketStep_tally (hA : Asserts H t p s) (hS : SharedTally exact s)
    (hT : HeldTally exact p s.table) (hthrow : exact → ¬PushThrows p p')
    (h : BucketStep t p s l p' s') : SharedTally exact s' ∧ HeldTally exact p' s'.table := by
  have hplaces := hA.places
  have hchange : ∀ {i : ℕ} {b : LockedBucket Tid K V} {f : Bucket K V → Bucket K V},
      s.mBuckets[i]? = some b → p.bucketHeld = some (i, .exclusive) →
      SharedTally exact (s.setBucket i (b.change f)) := fun hget hp =>
    hS.change hget (hA.exclusive hget hp)
  cases h with
  | assign hr | assignThrow hr =>
    have hget := (Shared.deref_eq_some hr).2
    refine ⟨hchange hget rfl, hT.change hget rfl rfl id fun ht => ?_⟩
    simpa [Bucket.assign, assignAt, Pc.counted, Pc.uncounted] using ht
  | countFirst hr =>
    have hget := (Shared.deref_eq_some hr).2
    refine ⟨hchange hget rfl, hT.change hget rfl rfl id fun ht => ?_⟩
    simp only [Bucket.countUp, Pc.counted, Pc.uncounted] at ht ⊢
    exact ⟨Nat.succ_le_succ ht.covers, fun he => Nat.succ_le_succ (ht.exact he)⟩
  | @push _ k m r counted b hr =>
    have hget := (Shared.deref_eq_some hr).2
    cases counted with
    | false =>
      refine ⟨hchange hget rfl, hT.change hget rfl rfl id fun ht => ?_⟩
      simp only [Bucket.pushFront, Pc.counted, Pc.uncounted, List.length_cons] at ht ⊢
      exact ⟨Nat.succ_le_succ ht.covers, fun he => Nat.succ_le_succ (ht.exact he)⟩
    | true =>
      refine ⟨hchange hget rfl, hT.change hget rfl rfl id fun ht => ?_⟩
      simpa [Bucket.pushFront, afterPush, Pc.counted, Pc.uncounted] using ht
  | pushThrow _ k m r counted =>
    refine ⟨hS, fun i hi b hb => ?_, fun h => absurd h id⟩
    cases counted with
    | false => exact hT.bucket i hi b hb
    | true =>
      have ht := hT.bucket i hi b hb
      simp only [Pc.counted, Pc.uncounted] at ht ⊢
      exact ⟨Nat.le_of_succ_le ht.covers, fun he => absurd ⟨k, m, r, rfl, rfl⟩ (hthrow he)⟩
  | countPushed hr =>
    have hget := (Shared.deref_eq_some hr).2
    refine ⟨hchange hget rfl, hT.change hget rfl rfl id fun ht => ?_⟩
    simpa [Bucket.countUp, Pc.counted, Pc.uncounted] using ht
  | @erase _ k r i b hr =>
    have hget := (Shared.deref_eq_some hr).2
    refine ⟨hchange hget rfl, hT.change hget rfl rfl id fun ht => ?_⟩
    -- the position was found in the bucket
    obtain ⟨b₀, hb₀, hf⟩ := hplaces.2
    obtain rfl := Shared.table_inj hget hb₀
    have hlt : i < b.mData.length := (List.findIdx?_eq_some_iff_findIdx_eq.mp hf).1
    have hlen : (b.mData.eraseIdx i).length + 1 = b.mData.length := by
      rw [List.length_eraseIdx_of_lt hlt]
      omega
    simp only [Bucket.eraseAfter, Pc.counted, Pc.uncounted, hlen] at ht ⊢
    exact ht
  | countErased hr =>
    have hget := (Shared.deref_eq_some hr).2
    refine ⟨hchange hget rfl, hT.change hget rfl rfl id fun ht => ?_⟩
    simp only [Bucket.countDown, Pc.counted, Pc.uncounted] at ht ⊢
    exact ⟨Nat.le_sub_one_of_lt ht.covers, fun he => Nat.sub_le_of_le_add (ht.exact he)⟩

/-- INTERNAL: the calls that go through the buckets one by one. -/
theorem readStep_tally [DecidableEq Tid] (hA : Asserts H t p s) (hS : SharedTally exact s)
    (h : ReadStep t p s l p' s') : SharedTally exact s' ∧ HeldTally exact p' s'.table := by
  -- no step here holds the mutex of a bucket exclusively
  have hshared : ∀ {i : ℕ} {b : LockedBucket Tid K V} {x : Hold},
      s.mBuckets[i]? = some b → (∀ j, heldAt p.bucketHeld j ≠ .exclusive) →
      SharedTally exact (s.setBucket i (b.hold t x)) := fun hget hp =>
    hS.hold hget fun hex _ => by
      rw [← Shared.holdAt_eq hget, hA.bucket] at hex
      exact absurd hex (hp _)
  cases h with
  | lock hg =>
    exact ⟨hS.holdMap hA (by simp [Pc.mapHold]), heldTally_of_none (by simp [Pc.bucketHeld]) id⟩
  | test _ q x =>
    refine ⟨hS, ?_⟩
    unfold afterReadTest
    split <;> exact heldTally_of_none (by simp [Pc.bucketHeld]) id
  | bucketLock hr hg =>
    exact ⟨hshared (Shared.deref_eq_some hr).2 (by simp [heldAt, Pc.bucketHeld]),
      heldTally_of_none (by simp [Pc.bucketHeld]) id⟩
  | bucket hr => exact ⟨hS, heldTally_of_none (by simp [Pc.bucketHeld]) id⟩
  | bucketThrow _ x => exact ⟨hS, heldTally_of_none (by simp [Pc.bucketHeld]) id⟩
  | @bucketUnlock _ q x b hr =>
    refine ⟨hshared (Shared.deref_eq_some hr).2 fun j => ?_,
      heldTally_of_none (by simp [Pc.bucketHeld]) id⟩
    by_cases hj : j = x.cursor.index <;> simp [heldAt, Pc.bucketHeld, hj]
  | countLock hg =>
    exact ⟨hS.holdMap hA (by simp [Pc.mapHold]), heldTally_of_none (by simp [Pc.bucketHeld]) id⟩
  | countRead _ => exact ⟨hS, heldTally_of_none (by simp [Pc.bucketHeld]) id⟩

/-- INTERNAL: the steps of `rehash`. -/
theorem rehashStep_tally [DecidableEq Tid] (hI : SharedInv H s) (hA : Asserts H t p s)
    (hS : SharedTally exact s) (hT : HeldTally exact p s.table)
    (hA' : Asserts H t p' s') (h : RehashStep H t p s l p' s') :
    SharedTally exact s' ∧ HeldTally exact p' s'.table := by
  have hplaces := hA.places
  have hex := hA'.map
  -- a step that keeps the counters of all buckets
  have hkeep : p.countsAll → p'.bucketHeld = none → HeldTally exact p' s.table := fun hp hb =>
    ⟨fun i hi => by simp [hb] at hi, fun _ => hT.all hp⟩
  cases h with
  | lock hg =>
    exact ⟨sharedTally_of_exclusive hex, fun i hi => by simp [Pc.bucketHeld] at hi,
      fun _ => hS.all hI hg⟩
  | sum hlast hr => exact ⟨hS, hkeep trivial rfl⟩
  | sumEnd hlast => exact ⟨hS, hkeep trivial rfl⟩
  | make _ lf sz => exact ⟨hS, heldTally_of_none (by simp [Pc.bucketHeld]) id⟩
  | makeThrow _ lf sz => exact ⟨hS, hkeep trivial rfl⟩
  | @move _ c tmp b e oldData hlast hr hdata =>
    obtain ⟨tmp', htmp', -⟩ := moveNode_holds hplaces.1 e
    rw [htmp'] at hex ⊢
    exact ⟨sharedTally_of_exclusive hex,
      heldTally_of_none (by simp [afterMove, Pc.bucketHeld]) id⟩
  | moveNext hlast hr hdata => exact ⟨hS, heldTally_of_none (by simp [Pc.bucketHeld]) id⟩
  | moveEnd hlast => exact ⟨hS, heldTally_of_none (by simp [Pc.bucketHeld]) id⟩
  | swap _ tmp =>
    refine ⟨sharedTally_of_exclusive hex, fun i hi => by simp [Pc.bucketHeld] at hi, ?_⟩
    intro _ b hb
    rw [table_map_newLocked] at hb
    have hcounted : b.mSize = b.mData.length := hplaces.1.counted b hb
    exact ⟨hcounted.ge, fun _ => hcounted.le⟩
  | count _ sz =>
    exact ⟨sharedTally_of_exclusive hex, fun i hi => by simp [Pc.bucketHeld] at hi,
      fun _ => hT.all trivial⟩
  | unlock _ res =>
    refine ⟨fun _ i b hget _ => ?_, heldTally_of_none (by simp [Pc.bucketHeld]) id⟩
    exact hT.all trivial b (List.mem_of_getElem? hget)

/-- Every step keeps the counters covered, and exact if no exception leaves `push_front`
after `++m_size`. -/
theorem hashmapStep_tally [DecidableEq Tid] (hI : SharedInv H s) (hA : Asserts H t p s)
    (hS : SharedTally exact s) (hT : HeldTally exact p s.table)
    (hA' : Asserts H t p' s') (hthrow : exact → ¬PushThrows p p')
    (h : HashmapStep H t p s l p' s') : SharedTally exact s' ∧ HeldTally exact p' s'.table := by
  cases h with
  | client h =>
    refine ⟨?_, clientStep_tally h⟩
    cases h <;> exact hS
  | key h => exact keyStep_tally hI hA hS hT h
  | bucket h => exact bucketStep_tally hA hS hT hthrow h
  | read h => exact readStep_tally hA hS h
  | rehash h => exact rehashStep_tally hI hA hS hT hA' h

end Steps

/-! ## Runs -/

section Runs

variable [DecidableEq Tid] {H : Keys K} {n : ℕ} {exact : Prop}
  {tr : List (Tid × Lab K V)} {c : Config Tid (Pc K V) (Shared Tid K V)}

/-- Whoever is about to take `m_mut` for `rehash` finds an entry in the map. -/
def RehashStored (c : Config Tid (Pc K V) (Shared Tid K V)) (e : Tid × Lab K V) : Prop :=
  ∀ lf, c.pc e.1 = .rehashLock lf → TsExHashmap.copy c.sh.table ≠ []

/-- The steps in which no exception leaves `push_front` after `++m_size`, as far as
`exact` asks for it. -/
def CountingStep (exact : Prop) (H : Keys K) : Program Tid (Pc K V) (Shared Tid K V) (Lab K V) :=
  fun t p s l p' s' => HashmapStep H t p s l p' s' ∧ (exact → ¬PushThrows p p')

omit [DecidableEq Tid] in
/-- INTERNAL: a step at which no exception leaves `push_front` after `++m_size`. -/
theorem not_pushThrows {p p' : Pc K V}
    (h : ∀ k m r, p = .push k m r true → p' ≠ .bucketUnlock .exclusive r .thrown) :
    exact → ¬PushThrows p p' :=
  fun _ ⟨k, m, r, hp, hp'⟩ => h k m r hp hp'

omit [DecidableEq Tid] in
/-- INTERNAL: the counters of a new map are zero. -/
theorem tallyInv_newMap : TallyInv exact (newMap Tid K V n) := by
  have htable : (newMap Tid K V n).sh.table = TsExHashmap.new n := table_map_newLocked
  refine ⟨fun _ i b hb _ => ?_, fun t => heldTally_of_none (fun i => by
    simp [newMap, Pc.bucketHeld]) id⟩
  rw [htable] at hb
  obtain rfl : b = Bucket.new := List.eq_of_mem_replicate (List.mem_of_getElem? hb)
  exact ⟨Nat.le_refl 0, fun _ => Nat.le_refl 0⟩

/-- INTERNAL: one step. -/
theorem tallyInv_step {c' : Config Tid (Pc K V) (Shared Tid K V)} {e : Tid × Lab K V}
    (hO : (outline Tid H).Holds c) (hc : TallyInv exact c) (hne : RehashNonempty c e)
    (hs : Step (CountingStep exact H) c e c') : TallyInv exact c' := by
  obtain ⟨_, hI, hA⟩ := hO
  obtain ⟨hstep, hthrow⟩ := hs
  rename_i t l p' s'
  have hg := hashmapStep_guarantee hI (hA t) hne hstep
  obtain ⟨hS, hT⟩ := hashmapStep_tally hI (hA t) hc.shared (hc.held t) hg.asserts hthrow hstep
  refine ⟨hS, fun u => ?_⟩
  by_cases hut : u = t
  · subst hut
    simpa using hT
  · simpa [Function.update_of_ne hut] using (hc.held u).rely (hA u) (hg.rely u hut)

omit [DecidableEq Tid] in
/-- INTERNAL: a map with an entry in a bucket that is covered has a counter that is not
zero. -/
theorem size_ne_zero {T : TsExHashmap K V} (h : ∀ b ∈ T.mBuckets, b.mData.length ≤ b.mSize)
    (hne : T.copy ≠ []) : T.size ≠ 0 := by
  intro hzero
  apply hne
  refine copy_of_empty fun b hb => ?_
  have hmem : b.mSize ∈ T.mBuckets.map Bucket.mSize := List.mem_map_of_mem hb
  have hz : b.mSize = 0 := List.sum_eq_zero_iff_forall_eq_nat.mp hzero _ hmem
  have hle := h b hb
  rw [hz] at hle
  exact List.length_eq_zero_iff.mp (Nat.le_zero.mp hle)

/-- INTERNAL: a `rehash` that finds an entry finds that the counters are not all zero. -/
theorem rehashNonempty_of_stored {c' : Config Tid (Pc K V) (Shared Tid K V)}
    {e : Tid × Lab K V} (hO : (outline Tid H).Holds c) (hc : TallyInv exact c)
    (hg : RehashStored c e) (hs : Step (CountingStep exact H) c e c') :
    RehashNonempty c e := by
  intro lf hpc
  obtain ⟨_, hI, -⟩ := hO
  refine size_ne_zero (fun b hb => ?_) (hg lf hpc)
  obtain ⟨hstep, -⟩ := hs
  rename_i t l p' s'
  change c.pc t = _ at hpc
  rw [hpc] at hstep
  -- nobody holds `m_mut` when `rehash` takes it
  have hfree : ∀ u, c.sh.mMut u = .free := by
    cases hstep with
    | client h => cases h
    | key h => cases h
    | bucket h => cases h
    | read h => cases h
    | rehash h =>
      cases h with
      | lock hgrant => exact hgrant
  exact (hc.shared.all hI hfree b hb).covers

end Runs

/-! ## A call of `size` or `load_factor` alone -/

section Alone

variable {H : Keys K} {t : Tid} {T : TsExHashmap K V} {st : ℕ} {q : Reading}

/-- Only thread `t` takes steps, inside the call it has made. -/
def Alone (t : Tid) (_ : Config Tid (Pc K V) (Shared Tid K V)) (e : Tid × Lab K V) : Prop :=
  e = (t, none)

/-- What `size` and `load_factor` return if no other thread interferes. -/
def Reading.answer (q : Reading) (T : TsExHashmap K V) : Result K V :=
  q.result ⟨⟨⟨0, 0⟩, 0⟩, T.size, []⟩ T.mBucketsCount

/-- The counters in front of the iterator have been summed up. -/
def Sums (T : TsExHashmap K V) (storage : ℕ) (x : Scan K V) (i : ℕ) : Prop :=
  x.cursor.Within T storage ∧ x.sz = ((T.mBuckets.take i).map Bucket.mSize).sum

/-- What a thread in `size` or `load_factor` has found while no other thread interferes. -/
def Reading.Finds (q : Reading) (T : TsExHashmap K V) (storage : ℕ) : Pc K V → Prop
  | .readLock q' => q' = q
  | .readTest q' x | .readBucketLock q' x | .readBucket q' x =>
    q' = q ∧ Sums T storage x x.cursor.index
  | .readBucketUnlock q' x => q' = q ∧ x.cursor.index ≠ x.cursor.last ∧
    Sums T storage x (x.cursor.index + 1)
  | .mapUnlock r | .returning r => r = q.answer T
  | _ => False

/-- INTERNAL: the counter of the bucket behind the iterator is added. -/
theorem Sums.visit {s : Shared Tid K V} {x : Scan K V} {b : LockedBucket Tid K V}
    (hq : q ≠ .copy) (h : Sums s.table st x x.cursor.index)
    (hget : s.mBuckets[x.cursor.index]? = some b) :
    (q.visit x b.toBucket).cursor = x.cursor ∧
      Sums s.table st (q.visit x b.toBucket) (x.cursor.index + 1) := by
  have hcursor : (q.visit x b.toBucket).cursor = x.cursor := by
    cases q <;> rfl
  have hsz : (q.visit x b.toBucket).sz = x.sz + b.mSize := by
    cases q with
    | copy => exact absurd rfl hq
    | size => rfl
    | loadFactor => rfl
  refine ⟨hcursor, hcursor ▸ h.1, ?_⟩
  rw [hsz, h.2, List.take_add_one, Shared.table_getElem? hget]
  simp

/-- INTERNAL: one step of the call. -/
theorem Reading.Finds.step [DecidableEq Tid] {s s' : Shared Tid K V} {p p' : Pc K V}
    (hq : q ≠ .copy) (h : q.Finds s.table s.storage p) (hs : HashmapStep H t p s none p' s') :
    s'.table = s.table ∧ s'.storage = s.storage ∧ q.Finds s.table s.storage p' := by
  cases hs with
  | client hs => cases hs
  | key hs =>
    cases hs with
    | mapUnlock _ res => exact ⟨rfl, rfl, h⟩
    | _ => exact absurd h id
  | bucket hs => cases hs <;> exact absurd h id
  | rehash hs => cases hs <;> exact absurd h id
  | read hs =>
    cases hs with
    | lock hg => exact ⟨rfl, rfl, h, s.begin_within, by simp [Shared.begin]⟩
    | test _ q' x =>
      obtain ⟨rfl, hsums⟩ := h
      refine ⟨rfl, rfl, ?_⟩
      unfold afterReadTest
      split
      · rename_i hlast
        -- the iterator has passed all buckets
        have hall : x.sz = s.table.size := by
          rw [hsums.2, hlast, hsums.1.last, List.take_length]
          rfl
        cases q' with
        | copy => exact absurd rfl hq
        | size => exact congrArg Result.size hall
        | loadFactor =>
          show Reading.result .loadFactor x s.mBucketsCount = _
          rw [Reading.result, hall]
          rfl
      · exact ⟨rfl, hsums⟩
    | bucketLock hr hg =>
      exact ⟨Shared.setBucket_hold_table (Shared.deref_eq_some hr).2 t _, rfl, h⟩
    | @bucket _ q' x b hr =>
      obtain ⟨rfl, hsums⟩ := h
      have hget := (Shared.deref_eq_some hr).2
      obtain ⟨hcursor, hsums'⟩ := hsums.visit hq hget
      have hlt : x.cursor.index < x.cursor.last := by
        rw [hsums.1.last]
        exact (List.getElem?_eq_some_iff.mp (Shared.table_getElem? hget)).1
      refine ⟨rfl, rfl, rfl, ?_⟩
      rw [hcursor]
      exact ⟨hlt.ne, hsums'⟩
    | bucketThrow _ x => exact absurd h.1.symm hq
    | @bucketUnlock _ q' x b hr =>
      obtain ⟨rfl, hne, hsums⟩ := h
      exact ⟨Shared.setBucket_hold_table (Shared.deref_eq_some hr).2 t _, rfl, rfl,
        hsums.1.step hne, hsums.2⟩
    | _ => exact absurd h id

end Alone

/-! ## The counters are exact -/

end UbuntuProjects.TsExHashmap
