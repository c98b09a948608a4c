import UbuntuProjects.Analysis.TsExHashmapAssertions
import UbuntuProjects.Concurrency.Program

/-!
# `ts_ex_hashmap`: every step keeps the assertions

A step takes or releases a mutex (`guarantee_map`, `guarantee_bucket`), changes a bucket
whose mutex the thread holds exclusively (`guarantee_change`), changes the table while the
thread holds `m_mut` of the map exclusively (`guarantee_exclusive`), or changes nothing
that is shared (`guarantee_local`). `hashmapStep_guarantee` puts them together for all
steps. It is the only place that asks what `rehash` finds: with counters that are not all
zero it makes at least one new bucket.
-/

set_option autoImplicit false

namespace UbuntuProjects.TsExHashmap

open Concurrency (Config Run Step Hold SharedMutex Outline)
open Hashmap
open Maps (Placed)

variable {Tid K V : Type}

/-! ## The table after a step -/

section Updates

variable {s : Shared Tid K V} {i j : ℕ} {b b₀ : LockedBucket Tid K V} {r : BucketRef}

/-- The bucket behind a reference. -/
theorem Shared.deref_eq_some (h : s.deref r = some b) :
    r.storage = s.storage ∧ s.mBuckets[r.index]? = some b := by
  unfold Shared.deref at h
  split at h
  · exact ⟨‹_›, h⟩
  · cases h

theorem Shared.table_getElem? (h : s.mBuckets[i]? = some b) :
    s.table.mBuckets[i]? = some b.toBucket := by
  simp [Shared.table, h]

/-- The bucket found in the table is the one behind the lock. -/
theorem Shared.table_inj {b₀ : Bucket K V} (h : s.mBuckets[i]? = some b)
    (h₀ : s.table.mBuckets[i]? = some b₀) : b.toBucket = b₀ :=
  Option.some.inj ((Shared.table_getElem? h).symm.trans h₀)

theorem Shared.setBucket_table (s : Shared Tid K V) (i : ℕ) (b : LockedBucket Tid K V) :
    (s.setBucket i b).table =
      { s.table with mBuckets := s.table.mBuckets.set i b.toBucket } := by
  simp [Shared.setBucket, Shared.table]

theorem Shared.setBucket_holdAt (h : s.mBuckets[i]? = some b₀) (b : LockedBucket Tid K V)
    (j : ℕ) : (s.setBucket i b).holdAt j = if j = i then b.mMut else s.holdAt j := by
  have hi := (List.getElem?_eq_some_iff.mp h).1
  funext u
  unfold Shared.holdAt Shared.setBucket
  by_cases hj : j = i
  · subst hj
    simp [List.getElem?_set_self hi]
  · simp [List.getElem?_set_ne (Ne.symm hj), hj]

/-- How the threads hold the mutex of a bucket. -/
theorem Shared.holdAt_eq (h : s.mBuckets[i]? = some b) : s.holdAt i = b.mMut := by
  funext u
  simp [Shared.holdAt, h]

/-- Taking or releasing the mutex of a bucket does not change the table. -/
theorem Shared.setBucket_hold_table [DecidableEq Tid] (h : s.mBuckets[i]? = some b) (t : Tid)
    (x : Hold) : (s.setBucket i (b.hold t x)).table = s.table := by
  rw [Shared.setBucket_table]
  show { s.table with mBuckets := s.table.mBuckets.set i b.toBucket } = s.table
  rw [Maps.set_of_getElem? (Shared.table_getElem? h)]

end Updates

/-! ## Kinds of steps -/

/-- What a step of thread `t` achieves. -/
structure Guarantee (H : Keys K) (t : Tid) (s : Shared Tid K V) (p' : Pc K V)
    (s' : Shared Tid K V) : Prop where
  inv : SharedInv H s'
  asserts : Asserts H t p' s'
  rely : ∀ u, u ≠ t → Rely u s s'

section Kinds

variable {H : Keys K} {s s' : Shared Tid K V} {t : Tid} {p p' : Pc K V} {i : ℕ}
  {b : LockedBucket Tid K V}

/-- INTERNAL: a step that changes the control point only. -/
theorem guarantee_local (hI : SharedInv H s) (hA : Asserts H t p s)
    (hm : p'.mapHold = p.mapHold) (hb : p'.bucketHeld = p.bucketHeld)
    (hp : Places H s.table s.storage p') : Guarantee H t s p' s where
  inv := hI
  asserts := ⟨hA.map.trans hm.symm, fun i => hb ▸ hA.bucket i, hp⟩
  rely _ _ := ⟨rfl, fun _ => rfl, fun _ => ⟨rfl, rfl⟩, fun _ _ => rfl, fun _ => rfl⟩

/-- INTERNAL: a thread that holds `m_mut` of the map exclusively holds no bucket, and the
others hold nothing. -/
theorem SharedInv.alone (hI : SharedInv H s) (ht : s.mMut t = .exclusive) :
    (∀ u, u ≠ t → s.mMut u = .free) ∧ ∀ i u, s.holdAt i u = .free := by
  have hfree : ∀ u, u ≠ t → s.mMut u = .free := fun u hu => hI.map t u ht hu
  refine ⟨hfree, fun i u => ?_⟩
  by_contra hne
  have hsh := hI.nested i u hne
  by_cases hu : u = t
  · subst hu
    rw [ht] at hsh
    cases hsh
  · rw [hfree u hu] at hsh
    cases hsh

/-- INTERNAL: while `m_mut` of the map is free nobody holds a bucket. -/
theorem SharedInv.holdAt_of_free (hI : SharedInv H s) (hfree : ∀ u, s.mMut u = .free) (i : ℕ)
    (u : Tid) : s.holdAt i u = .free := by
  by_contra hne
  have hsh := hI.nested i u hne
  rw [hfree u] at hsh
  cases hsh

/-- INTERNAL: a thread that holds a bucket exclusively is the only one, and no thread holds
`m_mut` of the map exclusively. -/
theorem SharedInv.owner (hI : SharedInv H s) (ht : s.holdAt i t = .exclusive) :
    (∀ u, u ≠ t → s.holdAt i u = .free) ∧ ∀ u, s.mMut u ≠ .exclusive := by
  have hsh := hI.nested i t (by rw [ht]; decide)
  refine ⟨fun u hu => hI.bucket i t u ht hu, fun u hu => ?_⟩
  by_cases hut : u = t
  · subst hut
    rw [hsh] at hu
    cases hu
  · rw [hI.map u t hu (Ne.symm hut)] at hsh
    cases hsh

/-- INTERNAL: a step in a bucket whose mutex the thread holds exclusively. -/
theorem guarantee_change {f : Bucket K V → Bucket K V} (hI : SharedInv H s)
    (hA : Asserts H t p s) (hget : s.mBuckets[i]? = some b)
    (hheld : p.bucketHeld = some (i, .exclusive)) (hm : p'.mapHold = p.mapHold)
    (hb : p'.bucketHeld = p.bucketHeld)
    (hplace : ∀ e ∈ (f b.toBucket).mData, H.hasher e.1 % s.table.mBuckets.length = i)
    (hp : Places H { s.table with mBuckets := s.table.mBuckets.set i (f b.toBucket) }
      s.storage p') :
    Guarantee H t s p' (s.setBucket i (b.change f)) := by
  have htable := Shared.setBucket_table s i (b.change f)
  have hhold : ∀ j, (s.setBucket i (b.change f)).holdAt j = s.holdAt j := by
    intro j
    rw [Shared.setBucket_holdAt hget]
    split
    · subst_vars
      exact (Shared.holdAt_eq hget).symm
    · rfl
  have howner := hI.owner (t := t) (i := i) (by rw [hA.bucket, hheld]; simp [heldAt])
  refine ⟨⟨hI.map, fun j => hhold j ▸ hI.bucket j, fun j u hu => hI.nested j u (hhold j ▸ hu),
    fun hno => ?_, ?_⟩, ⟨hA.map.trans hm.symm, fun j => ?_, ?_⟩, fun u hu =>
    ⟨rfl, fun j => by rw [hhold], fun _ => ⟨rfl, ?_⟩, fun j hj => ?_, fun hex => ?_⟩⟩
  · rw [htable]
    exact ⟨by simpa using (hI.consistent hno).count, by simpa using (hI.consistent hno).pos⟩
  · rw [htable]
    simp only [List.length_set, List.map_set]
    exact hI.placed.set hplace
  · rw [hhold, hb]
    exact hA.bucket j
  · rw [htable]
    exact hp
  · simp [htable]
  · have hji : i ≠ j := by
      rintro rfl
      exact hj (howner.1 u hu)
    simp [htable, List.getElem?_set_ne hji]
  · exact absurd hex (howner.2 u)

/-- INTERNAL: a step that changes the table while the thread holds `m_mut` of the map
exclusively, and leaves the mutexes of all buckets unlocked. -/
theorem guarantee_exclusive (hI : SharedInv H s) (hA : Asserts H t p s)
    (hm : p.mapHold = .exclusive) (hm' : p'.mapHold = .exclusive) (hb' : p'.bucketHeld = none)
    (hmut : s'.mMut = s.mMut) (hhold : ∀ i u, s'.holdAt i u = .free)
    (hplaced : Placed (fun k => H.hasher k % s'.table.mBuckets.length)
      (s'.table.mBuckets.map Bucket.mData))
    (hp : Places H s'.table s'.storage p') : Guarantee H t s p' s' := by
  have ht : s.mMut t = .exclusive := hA.map.trans hm
  have halone := hI.alone ht
  refine ⟨⟨hmut ▸ hI.map, fun i => ?_, fun i u hu => absurd (hhold i u) hu,
    fun hno => absurd (hmut ▸ ht) (hno t), hplaced⟩, ⟨?_, fun i => ?_, hp⟩, fun u hu =>
    ⟨by rw [hmut], fun i => ?_, fun hu' => absurd (halone.1 u hu) hu', fun i hi => ?_,
      fun hex => ?_⟩⟩
  · intro a c ha _
    rw [hhold] at ha
    cases ha
  · rw [hmut, ht, hm']
  · rw [hhold, hb']
    rfl
  · rw [hhold, halone.2]
  · exact absurd (halone.2 i u) hi
  · rw [halone.1 u hu] at hex
    cases hex

variable [DecidableEq Tid]

/-- INTERNAL: taking or releasing `m_mut` of the map. Who releases it after holding it
exclusively leaves a consistent table. -/
theorem guarantee_map (p' : Pc K V) (hI : SharedInv H s) (hA : Asserts H t p s)
    (hb : p.bucketHeld = none) (hb' : p'.bucketHeld = none) (hg : s.mMut.Grants p'.mapHold)
    (hc : p.mapHold = .exclusive → Consistent s.table)
    (hp : Places H s.table s.storage p') : Guarantee H t s p' (s.holdMap t p'.mapHold) where
  inv := by
    refine ⟨hI.map.lock hg, hI.bucket, fun i u hu => ?_, fun hno => ?_, hI.placed⟩
    · have hut : u ≠ t := by
        rintro rfl
        exact hu ((hA.bucket i).trans (by rw [hb]; rfl))
      exact (Function.update_of_ne hut ..).trans (hI.nested i u hu)
    · by_cases hex : p.mapHold = .exclusive
      · exact hc hex
      · refine hI.consistent fun u => ?_
        by_cases hut : u = t
        · subst hut
          rwa [hA.map]
        · have hu : Function.update s.mMut t p'.mapHold u ≠ .exclusive := hno u
          rwa [Function.update_of_ne hut] at hu
  asserts := by
    refine ⟨Function.update_self .., fun i => ?_, hp⟩
    rw [hb', ← hb]
    exact hA.bucket i
  rely u hu :=
    ⟨Function.update_of_ne hu .., fun _ => rfl, fun _ => ⟨rfl, rfl⟩, fun _ _ => rfl,
      fun _ => rfl⟩

/-- INTERNAL: taking or releasing `m_mut` of a bucket. -/
theorem guarantee_bucket {x : Hold} (hI : SharedInv H s) (hA : Asserts H t p s)
    (hget : s.mBuckets[i]? = some b) (hg : b.mMut.Grants x)
    (hm : p.mapHold = .shared) (hm' : p'.mapHold = .shared)
    (hheld : ∀ j, heldAt p'.bucketHeld j = if j = i then x else heldAt p.bucketHeld j)
    (hp : Places H s.table s.storage p') :
    Guarantee H t s p' (s.setBucket i (b.hold t x)) := by
  have htable := Shared.setBucket_hold_table hget t x
  have hhold : ∀ j u, u ≠ t → (s.setBucket i (b.hold t x)).holdAt j u = s.holdAt j u := by
    intro j u hu
    rw [Shared.setBucket_holdAt hget]
    split
    · subst_vars
      rw [Shared.holdAt_eq hget]
      exact Function.update_of_ne hu ..
    · rfl
  refine ⟨⟨hI.map, fun j => ?_, fun j u hu => ?_, ?_, ?_⟩, ⟨hA.map.trans (hm.trans hm'.symm),
    fun j => ?_, ?_⟩, fun u hu => ⟨rfl, fun j => hhold j u hu, fun _ => ⟨rfl, ?_⟩,
    fun j _ => ?_, fun _ => htable⟩⟩
  · rw [Shared.setBucket_holdAt hget]
    split
    · have hvalid := hI.bucket i
      rw [Shared.holdAt_eq hget] at hvalid
      exact hvalid.lock hg
    · exact hI.bucket j
  · by_cases hut : u = t
    · subst hut
      exact hA.map.trans hm
    · rw [hhold j u hut] at hu
      exact hI.nested j u hu
  · rw [htable]
    exact hI.consistent
  · rw [htable]
    exact hI.placed
  · rw [Shared.setBucket_holdAt hget, hheld]
    split
    · exact Function.update_self ..
    · exact hA.bucket j
  · rw [htable]
    exact hp
  · rw [htable]
  · rw [htable]

end Kinds

/-! ## Steps -/

section Steps

variable [DecidableEq Tid] {H : Keys K} {s s' : Shared Tid K V} {t : Tid} {p p' : Pc K V}
  {l : Lab K V}

omit [DecidableEq Tid] in
/-- INTERNAL: calls and returns. -/
theorem clientStep_guarantee (hI : SharedInv H s) (hA : Asserts H t p s)
    (h : ClientStep t p s l p' s') : Guarantee H t s p' s' := by
  cases h with
  | call _ op => cases op <;> exact guarantee_local hI hA rfl rfl trivial
  | ret _ r => exact guarantee_local hI hA rfl rfl trivial

omit [DecidableEq Tid] in
/-- INTERNAL: a thread that shares `m_mut` of the map sees a consistent table. -/
theorem consistent_of_shared (hI : SharedInv H s) (hA : Asserts H t p s)
    (hm : p.mapHold = .shared) : Consistent s.table :=
  hI.consistent (hI.map.not_exclusive_of_shared (hA.map.trans hm))

/-- A consistent table has a bucket for every key. -/
theorem Consistent.bucketFor {T : TsExHashmap K V} (h : Consistent T) (H : Keys K) (k : K) :
    T.bucketFor H k = some (H.hasher k % T.mBuckets.length) ∧
      H.hasher k % T.mBuckets.length < T.mBuckets.length := by
  have hlt := Nat.mod_lt (H.hasher k) h.pos
  refine ⟨?_, hlt⟩
  rw [Buckets.bucketFor, h.count, if_neg h.pos.ne', if_pos hlt]

/-- INTERNAL: what follows the search knows what was found. -/
theorem places_afterFind {T : TsExHashmap K V} {st : ℕ} {o : KeyOp K V} {r : BucketRef}
    {b : Bucket K V} (hlive : LiveFor H T st r o.key) (hb : T.mBuckets[r.index]? = some b) :
    Places H T st (afterFind H o r b) := by
  cases o with
  | insert k m =>
    cases hf : findEntry H k b.mData with
    | none =>
      simp only [afterFind, hf]
      exact ⟨hlive, b, hb, hf⟩
    | some i =>
      simp only [afterFind, hf]
      exact hlive.toLive
  | insertOrAssign k m =>
    cases hf : findEntry H k b.mData with
    | none =>
      simp only [afterFind, hf]
      exact ⟨hlive, b, hb, hf⟩
    | some i =>
      simp only [afterFind, hf]
      exact ⟨hlive, b, hb, hf⟩
  | remove k =>
    cases hf : findEntry H k b.mData with
    | none =>
      simp only [afterFind, findBeforeEntry_eq, hf]
      exact hlive.toLive
    | some i =>
      simp only [afterFind, findBeforeEntry_eq, hf]
      exact ⟨hlive, b, hb, hf⟩
  | mappedFor k => exact hlive.toLive

/-- INTERNAL: the search keeps both mutexes. -/
theorem afterFind_holds (H : Keys K) (o : KeyOp K V) (r : BucketRef) (b : Bucket K V) :
    (afterFind H o r b).mapHold = .shared ∧
      (afterFind H o r b).bucketHeld = some (r.index, bucketHold o) := by
  cases o with
  | insert k m =>
    cases hf : findEntry H k b.mData <;>
      simp [afterFind, hf, Pc.mapHold, Pc.bucketHeld, bucketHold]
  | insertOrAssign k m =>
    cases hf : findEntry H k b.mData <;>
      simp [afterFind, hf, Pc.mapHold, Pc.bucketHeld, bucketHold]
  | remove k =>
    cases hf : findBeforeEntry H k b.mData <;>
      simp [afterFind, hf, Pc.mapHold, Pc.bucketHeld, bucketHold]
  | mappedFor k => exact ⟨rfl, rfl⟩

/-- INTERNAL: the calls for one key around the work in the bucket. -/
theorem keyStep_guarantee (hI : SharedInv H s) (hA : Asserts H t p s)
    (h : KeyStep H t p s l p' s') : Guarantee H t s p' s' := by
  have hplaces := hA.places
  cases h with
  | lock hg =>
    exact guarantee_map (.bucketFor _) hI hA rfl rfl hg (fun h => by cases h) trivial
  | bucketFor _ o =>
    have hc := consistent_of_shared hI hA rfl
    obtain ⟨hfor, hlt⟩ := hc.bucketFor H o.key
    rw [hfor]
    exact guarantee_local hI hA rfl rfl ⟨⟨rfl, hlt⟩, rfl⟩
  | @bucketLock _ o r b hr hg =>
    have hget := (Shared.deref_eq_some hr).2
    refine guarantee_bucket hI hA hget hg rfl rfl (fun j => ?_) hplaces
    simp [heldAt, Pc.bucketHeld]
  | @find _ o r b hr =>
    have hget := Shared.table_getElem? (Shared.deref_eq_some hr).2
    obtain ⟨hm, hb⟩ := afterFind_holds H o r b.toBucket
    exact guarantee_local hI hA hm hb (places_afterFind hplaces hget)
  | findThrow _ o r =>
    exact guarantee_local hI hA rfl rfl (LiveFor.toLive hplaces)
  | @bucketUnlock _ x r res b hr =>
    have hget := (Shared.deref_eq_some hr).2
    refine guarantee_bucket (x := .free) hI hA hget trivial rfl rfl (fun j => ?_) trivial
    by_cases hj : j = r.index <;> simp [heldAt, Pc.bucketHeld, hj]
  | mapUnlock _ res =>
    exact guarantee_map (.returning res) hI hA rfl rfl trivial (fun h => by cases h)
      trivial

omit [DecidableEq Tid] in
/-- INTERNAL: the entries of a bucket have its index as their place. -/
theorem SharedInv.place (hI : SharedInv H s) {i : ℕ} {b : LockedBucket Tid K V}
    (hget : s.mBuckets[i]? = some b) :
    ∀ e ∈ b.mData, H.hasher e.1 % s.table.mBuckets.length = i := by
  intro e he
  refine hI.placed i b.mData ?_ e he
  rw [List.getElem?_map, Shared.table_getElem? hget]
  rfl

/-- INTERNAL: assigning keeps the keys. -/
theorem mem_assignAt {i : ℕ} {m : V} {d : List (K × V)} {e : K × V}
    (he : e ∈ assignAt i m d) : ∃ e' ∈ d, e'.1 = e.1 := by
  rw [assignAt] at he
  obtain ⟨j, hj, hget⟩ := List.mem_iff_getElem.mp he
  rw [List.getElem_modify] at hget
  have hj' : j < d.length := by simpa using hj
  refine ⟨d[j], List.getElem_mem hj', ?_⟩
  subst hget
  split <;> rfl

omit [DecidableEq Tid] in
/-- INTERNAL: the work in the bucket. -/
theorem bucketStep_guarantee (hI : SharedInv H s) (hA : Asserts H t p s)
    (h : BucketStep t p s l p' s') : Guarantee H t s p' s' := by
  have hplaces := hA.places
  -- after a change at its bucket a reference is live as before
  have hlen : ∀ (i : ℕ) (b : Bucket K V),
      (s.table.mBuckets.set i b).length = s.table.mBuckets.length := by simp
  have hset : ∀ {i : ℕ} {b : LockedBucket Tid K V} (b' : Bucket K V),
      s.mBuckets[i]? = some b → (s.table.mBuckets.set i b')[i]? = some b' := by
    intro i b b' hget
    exact List.getElem?_set_self (List.getElem?_eq_some_iff.mp (Shared.table_getElem? hget)).1
  cases h with
  | assign hr | assignThrow hr =>
    have hget := (Shared.deref_eq_some hr).2
    refine guarantee_change hI hA hget rfl rfl rfl (fun e he => ?_)
      (hplaces.1.toLive.congr (hlen _ _))
    obtain ⟨e', he', hkey⟩ := mem_assignAt he
    rw [← hkey]
    exact hI.place hget e' he'
  | @countFirst _ k m r b hr =>
    have hget := (Shared.deref_eq_some hr).2
    obtain ⟨b₀, hb₀, hf⟩ := hplaces.2
    obtain rfl := Shared.table_inj hget hb₀
    exact guarantee_change hI hA hget rfl rfl rfl (hI.place hget)
      ⟨hplaces.1.congr (hlen _ _), b.toBucket.countUp, hset _ hget, hf⟩
  | @push _ k m r counted b hr =>
    have hget := (Shared.deref_eq_some hr).2
    have hplace : ∀ e ∈ (b.toBucket.pushFront k m).mData,
        H.hasher e.1 % s.table.mBuckets.length = r.index := by
      intro e he
      rcases List.mem_cons.mp he with rfl | he
      · exact hplaces.1.hash.symm
      · exact hI.place hget e he
    cases counted with
    | false =>
      exact guarantee_change hI hA hget rfl rfl rfl hplace
        (hplaces.1.toLive.congr (hlen _ _))
    | true =>
      exact guarantee_change hI hA hget rfl rfl rfl hplace
        (hplaces.1.toLive.congr (hlen _ _))
  | pushThrow _ k m r counted =>
    exact guarantee_local hI hA rfl rfl hplaces.1.toLive
  | countPushed hr =>
    have hget := (Shared.deref_eq_some hr).2
    exact guarantee_change hI hA hget rfl rfl rfl (hI.place hget)
      (Live.congr hplaces (hlen _ _))
  | erase hr =>
    have hget := (Shared.deref_eq_some hr).2
    refine guarantee_change hI hA hget rfl rfl rfl (fun e he => ?_)
      (hplaces.1.toLive.congr (hlen _ _))
    exact hI.place hget e (List.mem_of_mem_eraseIdx he)
  | countErased hr =>
    have hget := (Shared.deref_eq_some hr).2
    exact guarantee_change hI hA hget rfl rfl rfl (hI.place hget)
      (Live.congr hplaces (hlen _ _))

/-- INTERNAL: an iterator that has not reached the end has a next one. -/
theorem Cursor.Within.step {T : TsExHashmap K V} {st : ℕ} {c : Cursor} (h : c.Within T st)
    (hne : c.index ≠ c.last) : c.next.Within T st :=
  ⟨h.storage, h.last, Nat.lt_of_le_of_ne h.index hne⟩

/-- INTERNAL: an iterator that has not reached the end is a live reference. -/
theorem Cursor.Within.live {T : TsExHashmap K V} {st : ℕ} {c : Cursor} (h : c.Within T st)
    (hne : c.index ≠ c.last) : Live T st c.toBucketRef :=
  ⟨h.storage, h.last ▸ Nat.lt_of_le_of_ne h.index hne⟩

omit [DecidableEq Tid] in
/-- INTERNAL: the iterator at the begin. -/
theorem Shared.begin_within (s : Shared Tid K V) : s.begin.Within s.table s.storage :=
  ⟨rfl, by simp [Shared.begin, Shared.table], Nat.zero_le _⟩

/-- INTERNAL: the calls that go through the buckets one by one. -/
theorem readStep_guarantee (hI : SharedInv H s) (hA : Asserts H t p s)
    (h : ReadStep t p s l p' s') : Guarantee H t s p' s' := by
  have hplaces := hA.places
  cases h with
  | @lock _ q hg =>
    exact guarantee_map (.readTest q _) hI hA rfl rfl hg (fun h => by cases h)
      s.begin_within
  | test _ q x =>
    unfold afterReadTest
    split
    · exact guarantee_local hI hA rfl rfl trivial
    · rename_i hne
      exact guarantee_local hI hA rfl rfl ⟨hplaces, hne⟩
  | bucketLock hr hg =>
    have hget := (Shared.deref_eq_some hr).2
    refine guarantee_bucket hI hA hget hg rfl rfl (fun j => ?_) hplaces
    simp [heldAt, Pc.bucketHeld]
  | @bucket _ q x b hr =>
    have hcursor : (q.visit x b.toBucket).cursor = x.cursor := by
      cases q <;> rfl
    refine guarantee_local hI hA rfl ?_ ?_
    · simp only [Pc.bucketHeld, hcursor]
    · simp only [Places, hcursor]
      exact hplaces
  | bucketThrow _ x => exact guarantee_local hI hA rfl rfl (hplaces.1.live hplaces.2)
  | @bucketUnlock _ q x b hr =>
    have hget := (Shared.deref_eq_some hr).2
    refine guarantee_bucket (x := .free) hI hA hget trivial rfl rfl (fun j => ?_)
      (hplaces.1.step hplaces.2)
    by_cases hj : j = x.cursor.index <;> simp [heldAt, Pc.bucketHeld, hj]
  | countLock hg =>
    exact guarantee_map .countRead hI hA rfl rfl hg (fun h => by cases h) trivial
  | countRead _ => exact guarantee_local hI hA rfl rfl trivial

omit [DecidableEq Tid] in
/-- INTERNAL: in `rehash` a step keeps the mutexes of the buckets unlocked. -/
theorem holdAt_free_of_set (hI : SharedInv H s) (ht : s.mMut t = .exclusive) {i : ℕ}
    {b : LockedBucket Tid K V} (hget : s.mBuckets[i]? = some b)
    (f : Bucket K V → Bucket K V) (j : ℕ) (u : Tid) :
    (s.setBucket i (b.change f)).holdAt j u = .free := by
  have halone := (hI.alone ht).2
  rw [Shared.setBucket_holdAt hget]
  split
  · have hfree := halone i u
    rw [Shared.holdAt_eq hget] at hfree
    exact hfree
  · exact halone j u

omit [DecidableEq Tid] in
/-- INTERNAL: the buckets of a new vector have unlocked mutexes. -/
theorem holdAt_map_newLocked {bs : List (Bucket K V)} {m : SharedMutex Tid} {n st : ℕ}
    (i : ℕ) (u : Tid) : (Shared.mk m n (bs.map newLocked) st).holdAt i u = .free := by
  simp only [Shared.holdAt, List.getElem?_map]
  cases bs[i]? <;> rfl

omit [DecidableEq Tid] in
/-- INTERNAL: the table with a new vector. -/
theorem table_map_newLocked {bs : List (Bucket K V)} {m : SharedMutex Tid} {n st : ℕ} :
    (Shared.mk m n (bs.map newLocked) st).table = ⟨n, bs⟩ := by
  simp only [Shared.table, List.map_map]
  congr 1
  exact List.map_id bs

omit [DecidableEq Tid] in
/-- INTERNAL: a counted table holds its own entries. -/
theorem holdsCounted_self {T : TsExHashmap K V} {d : List (K × V)}
    (h : HoldsCounted H T d) : HoldsCounted H T T.copy :=
  ⟨⟨h.holds.count, h.holds.pos, h.holds.placed, .refl _⟩, h.counted⟩

/-- INTERNAL: the steps of `rehash`. -/
theorem rehashStep_guarantee (hI : SharedInv H s) (hA : Asserts H t p s)
    (hne : ∀ lf, p = .rehashLock lf → TsExHashmap.size s.table ≠ 0)
    (h : RehashStep H t p s l p' s') : Guarantee H t s p' s' := by
  have hplaces := hA.places
  cases h with
  | @lock _ lf hg =>
    have hc : Consistent s.table := hI.consistent (SharedMutex.not_exclusive_of_free hg)
    exact guarantee_map (.rehashSum lf _ _) hI hA rfl rfl hg (fun h => by cases h)
      ⟨hc, hne lf rfl, s.begin_within, by simp [Shared.begin]⟩
  | @sum _ lf c sz b hlast hr =>
    obtain ⟨hc, hsize, hwithin, hsz⟩ := hplaces
    have hget := Shared.table_getElem? (Shared.deref_eq_some hr).2
    refine guarantee_local hI hA rfl rfl ⟨hc, hsize, hwithin.step hlast, ?_⟩
    -- the counter of one more bucket
    show _ = ((s.table.mBuckets.take (c.index + 1)).map Bucket.mSize).sum
    rw [List.take_add_one, hget, hsz]
    simp
  | @sumEnd _ lf c sz hlast =>
    obtain ⟨hc, hsize, hwithin, hsz⟩ := hplaces
    have hall : sz = s.table.size := by
      rw [hsz, hlast, hwithin.last, List.take_length]
      rfl
    refine guarantee_local hI hA rfl rfl ⟨hc, (rehashCount_pos lf).mpr ?_⟩
    rwa [hall]
  | make _ lf sz =>
    refine guarantee_local hI hA rfl rfl ⟨holdsCounted_self (new_holdsCounted H hplaces.2),
      s.begin_within, fun i hi => ?_⟩
    exact absurd hi (Nat.not_lt_zero i)
  | makeThrow _ lf sz => exact guarantee_local hI hA rfl rfl hplaces.1
  | @move _ c tmp b e oldData hlast hr hdata =>
    obtain ⟨htmp, hwithin, hempty⟩ := hplaces
    have hget := (Shared.deref_eq_some hr).2
    obtain ⟨tmp', htmp', hholds⟩ := moveNode_holds htmp e
    have htable := Shared.setBucket_table s c.index
      (b.change fun b => { b with mData := oldData })
    rw [htmp']
    refine guarantee_exclusive hI hA rfl rfl rfl rfl (holdAt_free_of_set hI hA.map hget _) ?_ ?_
    · rw [htable]
      simp only [List.length_set, List.map_set]
      refine hI.placed.set fun e' he' => hI.place hget e' ?_
      rw [hdata]
      exact List.mem_cons_of_mem _ he'
    · rw [htable]
      refine ⟨holdsCounted_self hholds, hwithin.congr (by simp), fun i hi b' hb' => ?_⟩
      rw [List.getElem?_set_ne (by omega)] at hb'
      exact hempty i hi b' hb'
  | @moveNext _ c tmp b hlast hr hdata =>
    obtain ⟨htmp, hwithin, hempty⟩ := hplaces
    have hget := Shared.table_getElem? (Shared.deref_eq_some hr).2
    refine guarantee_local hI hA rfl rfl ⟨htmp, hwithin.step hlast, fun i hi b' hb' => ?_⟩
    rcases Nat.lt_succ_iff_lt_or_eq.mp hi with hi | rfl
    · exact hempty i hi b' hb'
    · obtain rfl : b.toBucket = b' := Option.some.inj (hget.symm.trans hb')
      exact hdata
  | @moveEnd _ c tmp hlast =>
    obtain ⟨htmp, hwithin, hempty⟩ := hplaces
    refine guarantee_local hI hA rfl rfl ⟨htmp, fun b hb => ?_⟩
    obtain ⟨i, hi⟩ := List.mem_iff_getElem?.mp hb
    refine hempty i ?_ b hi
    rw [hlast, hwithin.last]
    exact (List.getElem?_eq_some_iff.mp hi).1
  | swap _ tmp =>
    have htmp := hplaces.1.holds
    refine guarantee_exclusive hI hA rfl rfl rfl rfl holdAt_map_newLocked ?_ ?_
    · rw [table_map_newLocked, ← htmp.count]
      exact htmp.placed
    · rw [table_map_newLocked]
      exact ⟨htmp.count, htmp.pos⟩
  | count _ sz =>
    obtain ⟨hlen, hpos⟩ := hplaces
    exact guarantee_exclusive hI hA rfl rfl rfl rfl (hI.alone hA.map).2 hI.placed
      ⟨hlen, hlen ▸ hpos⟩
  | unlock _ res =>
    exact guarantee_map (.returning res) hI hA rfl rfl trivial (fun _ => hplaces) trivial

/-- Every step keeps the assertions, if `rehash` finds that the counters are not all
zero. -/
theorem hashmapStep_guarantee (hI : SharedInv H s) (hA : Asserts H t p s)
    (hne : ∀ lf, p = .rehashLock lf → TsExHashmap.size s.table ≠ 0)
    (h : HashmapStep H t p s l p' s') : Guarantee H t s p' s' := by
  cases h with
  | client h => exact clientStep_guarantee hI hA h
  | key h => exact keyStep_guarantee hI hA h
  | bucket h => exact bucketStep_guarantee hI hA h
  | read h => exact readStep_guarantee hI hA h
  | rehash h => exact rehashStep_guarantee hI hA hne h

end Steps

/-! ## Runs -/

/-- The assertions as an outline of the program; there is nothing to remember. -/
def outline (Tid : Type) (H : Keys K) : Outline Tid (Pc K V) (Shared Tid K V) Unit where
  shared _ s := SharedInv H s
  thread _ t p s := Asserts H t p s

/-- The outline holds of a new map. -/
theorem outline_newMap (H : Keys K) {n : ℕ} (hn : 0 < n) :
    (outline Tid H).Holds (newMap Tid K V n) := by
  have htable : (newMap Tid K V n).sh.table = TsExHashmap.new n := table_map_newLocked
  have hhold : ∀ i u, (newMap Tid K V n).sh.holdAt i u = .free := holdAt_map_newLocked
  have hnew := (new_holdsCounted (V := V) H hn).holds
  refine ⟨(), ⟨SharedMutex.valid_unlocked, fun i t u ht => ?_, fun i u hu => ?_, fun _ => ?_, ?_⟩,
    fun t => ⟨rfl, fun i => hhold i t, trivial⟩⟩
  · rw [hhold] at ht
    cases ht
  · exact absurd (hhold i u) hu
  · rw [htable]
    exact ⟨hnew.count, by simpa [TsExHashmap.new] using hn⟩
  · rw [htable, ← hnew.count]
    exact hnew.placed

/-- The outline holds after a step that achieves what is expected of it. -/
theorem outline_of_guarantee [DecidableEq Tid] {H : Keys K}
    {c : Config Tid (Pc K V) (Shared Tid K V)} {t : Tid} {p' : Pc K V} {s' : Shared Tid K V}
    (hA : ∀ u, Asserts H u (c.pc u) c.sh) (hg : Guarantee H t c.sh p' s') :
    (outline Tid H).Holds ⟨Function.update c.pc t p', s'⟩ := by
  refine ⟨(), hg.inv, fun u => ?_⟩
  show Asserts H u (Function.update c.pc t p' u) s'
  by_cases hut : u = t
  · subst hut
    rw [Function.update_self]
    exact hg.asserts
  · rw [Function.update_of_ne hut]
    exact (hA u).rely (hg.rely u hut)

/-- The outline holds in every run in which `rehash` finds that the counters are not all
zero. -/
theorem outline_run [DecidableEq Tid] {H : Keys K} {n : ℕ} (hn : 0 < n)
    {tr : List (Tid × Lab K V)} {c : Config Tid (Pc K V) (Shared Tid K V)}
    (h : Run (HashmapStep H) RehashNonempty (newMap Tid K V n) tr c) :
    (outline Tid H).Holds c := by
  refine (outline Tid H).holds_run (outline_newMap H hn) ?_ h
  intro tr c t l p' s' _ hne hstep g hI hA
  have hg := hashmapStep_guarantee hI hA hne hstep
  exact ⟨(), hg.inv, hg.asserts, fun u hu q hq => hq.rely (hg.rely u hu)⟩

end UbuntuProjects.TsExHashmap
