import UbuntuProjects.Analysis.TsExHashmapInvariant
import UbuntuProjects.Concurrency.Simulation

/-!
# `ts_ex_hashmap`: what each step does to the contents

The purpose of the map as a sequential object (`mapSpec`): a call for one key does to the
finite map what `KeyOp.apply` says and returns what it finds, and `rehash` leaves the map
as it is. A call that throws leaves the map as it is too, except that an assignment may
leave any value behind. Nothing is said of what `size`, `copy`, `load_factor` and
`buckets_count` return.

The contents are the entries of all buckets and, during a `rehash`, the entries that it has
moved to its new vector (`Pc.moved`). A step takes effect on the finite map when it finds
out that there is nothing to change, when it changes the list of a bucket, when it throws,
or when `rehash` has its new vector; every other step leaves the contents as they are
(`Follows`).
-/

set_option autoImplicit false

namespace UbuntuProjects.TsExHashmap

open Concurrency (Config SeqSpec Status Point AtomicMove SharedMutex)
open Hashmap
open Maps (KeyEq AssocMap)

variable {Tid K V : Type}

/-! ## The finite map as a sequential object -/

/-- What one call may do to the finite map. -/
inductive MapStep (E : KeyEq K) :
    AssocMap E V → Op K V → Result K V → AssocMap E V → Prop
  | key (m : AssocMap E V) (o : KeyOp K V) :
      MapStep E m (.key o) (.of (exResult o (o.result (m.lookup o.key)))) (o.apply m)
  | rehash (m : AssocMap E V) (lf : LoadFactor) : MapStep E m (.rehash lf) (.of .void) m
  | thrown (m : AssocMap E V) (op : Op K V) : MapStep E m op .thrown m
  | assignThrown (m : AssocMap E V) (k : K) (v w : V) :
      MapStep E m (.key (.insertOrAssign k v)) .thrown (m.assign k w)
  | read (m : AssocMap E V) (q : Reading) (r : Result K V) : MapStep E m (.read q) r m
  | bucketsCount (m : AssocMap E V) (r : Result K V) : MapStep E m .bucketsCount r m

/-- The finite map as a sequential object. -/
def mapSpec (E : KeyEq K) (V : Type) : SeqSpec (Op K V) (Result K V) (AssocMap E V) :=
  ⟨.empty, MapStep E⟩

/-! ## Control points and the atomic object -/

/-- Where a thread at a control point is in its use of the finite map. -/
def Pc.status : Pc K V → Status (Op K V) (Result K V)
  | .idle | .undefined => .idle
  | .returning r | .bucketUnlock _ _ r | .mapUnlock r | .rehashUnlock r => .done r
  | .keyLock o | .bucketFor o | .bucketLock o _ | .find o _ => .pending (.key o)
  | .assign k m _ _ | .countFirst k m _ | .push k m _ true =>
    .pending (.key (.insertOrAssign k m))
  | .push k m _ false => .pending (.key (.insert k m))
  | .countPushed _ => .done (.of (.bool true))
  | .erase k _ _ => .pending (.key (.remove k))
  | .countErased _ => .done (.of .void)
  | .readLock q | .readTest q _ | .readBucketLock q _ | .readBucket q _
  | .readBucketUnlock q _ => .pending (.read q)
  | .countLock | .countRead => .pending .bucketsCount
  | .rehashLock lf | .rehashSum lf _ _ | .rehashMake lf _ => .pending (.rehash lf)
  | .rehashMove _ _ | .rehashSwap _ | .rehashCount _ => .done (.of .void)

/-- The entries that `rehash` has moved to its new vector. -/
def Pc.moved : Pc K V → List (K × V)
  | .rehashMove _ tmp | .rehashSwap tmp => tmp.copy
  | _ => []

/-- One move of the finite map that matches a step from `p` to `p'` and leads to the
contents `contents'`. -/
def Follows {E : KeyEq K} (m : AssocMap E V) (p : Pc K V) (l : Lab K V) (p' : Pc K V)
    (contents' : List (K × V)) : Prop :=
  ∃ v m', AtomicMove (mapSpec E V) m p.status v m' p'.status ∧ v.bind Point.event = l ∧
    contents'.Perm m'.entries

section Kinds

variable {E : KeyEq K} {m m' : AssocMap E V} {p p' : Pc K V} {d : List (K × V)}

/-- INTERNAL: a step that the finite map does not see. -/
theorem follows_stutter (h : p'.status = p.status) (hd : d.Perm m.entries) :
    Follows m p none p' d := by
  refine ⟨none, m, ?_, rfl, hd⟩
  rw [h]
  exact .stutter m _

/-- INTERNAL: a step at which a call takes effect. -/
theorem follows_lin (op : Op K V) {r : Result K V} (hp : p.status = .pending op)
    (hp' : p'.status = .done r) (hm : MapStep E m op r m') (hd : d.Perm m'.entries) :
    Follows m p none p' d := by
  refine ⟨some (.lin op r), m', ?_, rfl, hd⟩
  rw [hp, hp']
  exact .lin hm

end Kinds

/-! ## Contents -/

section Contents

variable {H : LawfulKeys K} {s s' : Shared Tid K V} {t : Tid} {p p' : Pc K V} {l : Lab K V}
  {m : AssocMap H.keyEq V} {k : K} {r : BucketRef} {b : LockedBucket Tid K V}

/-- INTERNAL: equal keys have the same bucket. -/
theorem place_congr (H : LawfulKeys K) (n : ℕ) :
    ∀ a b, H.keyEq.same a b → H.hasher a % n = H.hasher b % n := by
  intro a b hab
  rw [H.hash_eq a b hab]

/-- INTERNAL: the entries of the bucket of a key, as the key's place. -/
theorem LiveFor.getElem? {st : ℕ} (hlive : LiveFor H.toKeys s.table st r k)
    (hget : s.mBuckets[r.index]? = some b) :
    (s.table.mBuckets.map Bucket.mData)[H.hasher k % s.table.mBuckets.length]? =
      some b.mData := by
  rw [← hlive.hash, List.getElem?_map, Shared.table_getElem? hget]
  rfl

/-- INTERNAL: what the finite map has for a key is in the key's bucket, in which the keys
are distinct. -/
theorem SharedInv.lookup (hI : SharedInv H.toKeys s) (hm : s.table.copy.Perm m.entries)
    {st : ℕ} (hlive : LiveFor H.toKeys s.table st r k)
    (hget : s.mBuckets[r.index]? = some b) :
    m.lookup k = H.keyEq.find k b.mData ∧ H.keyEq.Distinct b.mData := by
  have hdistinct : H.keyEq.Distinct s.table.copy := m.distinct.perm hm.symm
  have hdata := hlive.getElem? hget
  refine ⟨?_, Maps.distinct_bucket hdistinct hdata⟩
  rw [AssocMap.lookup, ← KeyEq.find_perm hdistinct hm]
  exact hI.placed.find_flatten (place_congr H _) hdistinct hdata

/-- INTERNAL: an operation on the entry of a key, done in the key's bucket. -/
theorem SharedInv.update (hI : SharedInv H.toKeys s) (hm : s.table.copy.Perm m.entries)
    {st : ℕ} (hlive : LiveFor H.toKeys s.table st r k)
    (hget : s.mBuckets[r.index]? = some b) {f : Bucket K V → Bucket K V}
    {g : List (K × V) → List (K × V)} (hg : H.keyEq.KeyLocal k g)
    (hf : (f b.toBucket).mData = g b.mData) :
    (s.setBucket r.index (b.change f)).table.copy.Perm (g m.entries) := by
  have hperm := hI.placed.update_perm (place_congr H _) hg (hlive.getElem? hget)
  rw [Shared.setBucket_table, TsExHashmap.copy, List.map_set]
  show ((s.table.mBuckets.map Bucket.mData).set r.index (f b.toBucket).mData).flatten.Perm _
  rw [hf, hlive.hash]
  exact hperm.trans (hg.perm hm)

/-- INTERNAL: a change that keeps the entries of the bucket keeps the contents. -/
theorem copy_setBucket (hget : s.mBuckets[r.index]? = some b)
    {f : Bucket K V → Bucket K V} (hf : (f b.toBucket).mData = b.mData) :
    (s.setBucket r.index (b.change f)).table.copy = s.table.copy := by
  have hdata : (s.table.mBuckets.map Bucket.mData)[r.index]? = some b.mData := by
    rw [List.getElem?_map, Shared.table_getElem? hget]
    rfl
  rw [Shared.setBucket_table, TsExHashmap.copy, List.map_set]
  show ((s.table.mBuckets.map Bucket.mData).set r.index (f b.toBucket).mData).flatten = _
  rw [hf, Maps.set_of_getElem? hdata]
  rfl

/-! ## Steps -/

/-- INTERNAL: calls and returns. -/
theorem clientStep_follows {d : List (K × V)} (hm : d.Perm m.entries) (h : ClientStep t p s l p' s') :
    Follows m p l p' d := by
  cases h with
  | call _ op => exact ⟨some (.call op), m, by cases op <;> exact .call m _, rfl, hm⟩
  | ret _ r => exact ⟨some (.ret r), m, .ret m r, rfl, hm⟩

/-- INTERNAL: the search decides what the call returns, or the bucket is changed next. -/
theorem find_follows (hI : SharedInv H.toKeys s) (hm : s.table.copy.Perm m.entries)
    {o : KeyOp K V} {st : ℕ} (hlive : LiveFor H.toKeys s.table st r o.key)
    (hget : s.mBuckets[r.index]? = some b) :
    Follows m (.find o r) none (afterFind H.toKeys o r b.toBucket) s.table.copy := by
  obtain ⟨hlookup, -⟩ := hI.lookup hm hlive hget
  have hstep := MapStep.key m o
  rw [hlookup] at hstep
  cases o with
  | insert k v =>
    cases hf : findEntry H.toKeys k b.mData with
    | none =>
      simp only [afterFind, hf]
      exact follows_stutter rfl hm
    | some i =>
      simp only [afterFind, hf]
      have hsome := (find_of_findEntry hf).2
      have hstep' : MapStep H.keyEq m (.key (.insert k v)) (.of (.bool false))
          (m.insert k v) := by
        simpa [exResult, KeyOp.result, KeyOp.key, KeyOp.apply,
          Option.isNone_eq_false_iff.mpr hsome] using hstep
      refine follows_lin (.key (.insert k v)) rfl rfl hstep' ?_
      -- the key has an entry, so nothing is inserted
      have hm_some : (H.keyEq.find k m.entries).isSome := by
        rw [← AssocMap.lookup]
        exact (congrArg Option.isSome hlookup).trans hsome
      simp only [AssocMap.insert, KeyEq.insert, if_pos hm_some]
      exact hm
  | insertOrAssign k v =>
    cases hf : findEntry H.toKeys k b.mData with
    | none =>
      simp only [afterFind, hf]
      exact follows_stutter rfl hm
    | some i =>
      simp only [afterFind, hf]
      exact follows_stutter rfl hm
  | remove k =>
    cases hf : findEntry H.toKeys k b.mData with
    | none =>
      simp only [afterFind, findBeforeEntry_eq, hf]
      refine follows_lin (.key (.remove k)) rfl rfl hstep ?_
      -- the key has no entry, so nothing is erased
      have hnone : H.keyEq.find k m.entries = none := by
        rw [← AssocMap.lookup]
        exact hlookup.trans (findEntry_eq_none.mp hf)
      have herase := (KeyEq.find_eq_none_iff.mp hnone).erase
      simp only [KeyOp.apply, AssocMap.erase, herase]
      exact hm
    | some i =>
      simp only [afterFind, findBeforeEntry_eq, hf]
      exact follows_stutter rfl hm
  | mappedFor k =>
    have hvalue : b.toBucket.mappedFor H.toKeys k = H.keyEq.find k b.mData :=
      mappedFor_eq H k b.mData
    simp only [afterFind, hvalue]
    exact follows_lin (.key (.mappedFor k)) rfl rfl hstep hm

variable {moved : List (K × V)}

/-- INTERNAL: the calls for one key around the work in the bucket. -/
theorem keyStep_follows [DecidableEq Tid] (hI : SharedInv H.toKeys s)
    (hA : Asserts H.toKeys t p s) (hm : (s.table.copy ++ moved).Perm m.entries)
    (hmoved : p.mapHold = .shared → moved = []) (h : KeyStep H.toKeys t p s l p' s') :
    Follows m p l p' (s'.table.copy ++ moved) := by
  have hplaces := hA.places
  cases h with
  | lock hg => exact follows_stutter rfl hm
  | bucketFor _ o =>
    rw [((consistent_of_shared hI hA rfl).bucketFor H.toKeys o.key).1]
    exact follows_stutter rfl hm
  | bucketLock hr hg =>
    rw [Shared.setBucket_hold_table (Shared.deref_eq_some hr).2]
    exact follows_stutter rfl hm
  | find hr =>
    obtain rfl := hmoved rfl
    rw [List.append_nil] at hm ⊢
    exact find_follows hI hm hplaces (Shared.deref_eq_some hr).2
  | findThrow _ o r => exact follows_lin (.key o) rfl rfl (.thrown m _) hm
  | bucketUnlock hr =>
    rw [Shared.setBucket_hold_table (Shared.deref_eq_some hr).2]
    exact follows_stutter rfl hm
  | mapUnlock _ res => exact follows_stutter rfl hm

/-- INTERNAL: the work in the bucket. -/
theorem bucketStep_follows (hI : SharedInv H.toKeys s) (hA : Asserts H.toKeys t p s)
    (hm : s.table.copy.Perm m.entries) (h : BucketStep t p s l p' s') :
    Follows m p l p' s'.table.copy := by
  have hplaces := hA.places
  -- what was found in the bucket
  have hfound : ∀ {k : K} {r : BucketRef} {b : LockedBucket Tid K V} {x : Option ℕ},
      s.mBuckets[r.index]? = some b → Found H.toKeys s.table r k x →
      findEntry H.toKeys k b.mData = x := by
    intro k r b x hget hf
    obtain ⟨b₀, hb₀, hx⟩ := hf
    obtain rfl := Shared.table_inj hget hb₀
    exact hx
  cases h with
  | @assign _ k v r i b hr =>
    have hget := (Shared.deref_eq_some hr).2
    obtain ⟨hlive, hf⟩ := hplaces
    have hdistinct := (hI.lookup hm hlive hget).2
    exact follows_lin (.key (.insertOrAssign k v)) rfl rfl (.key m _)
      (hI.update hm hlive hget KeyEq.keyLocal_insertOrAssign
        (assignAt_eq_insertOrAssign hdistinct (hfound hget hf) v))
  | @assignThrow _ k v v' r i b hr =>
    have hget := (Shared.deref_eq_some hr).2
    obtain ⟨hlive, hf⟩ := hplaces
    have hdistinct := (hI.lookup hm hlive hget).2
    exact follows_lin (.key (.insertOrAssign k v)) rfl rfl (.assignThrown m k v v')
      (hI.update hm hlive hget KeyEq.keyLocal_assign
        (assignAt_eq_assign hdistinct (hfound hget hf) v'))
  | @countFirst _ k v r b hr =>
    rw [copy_setBucket (Shared.deref_eq_some hr).2 rfl]
    exact follows_stutter rfl hm
  | @push _ k v r counted b hr =>
    have hget := (Shared.deref_eq_some hr).2
    obtain ⟨hlive, hf⟩ := hplaces
    have hnone := hfound hget hf
    cases counted with
    | false =>
      have hstep := MapStep.key m (.insert k v)
      have hlookup : m.lookup k = none :=
        (hI.lookup hm hlive hget).1.trans (findEntry_eq_none.mp hnone)
      simp only [exResult, KeyOp.result, KeyOp.key, hlookup] at hstep
      exact follows_lin (.key (.insert k v)) rfl rfl hstep
        (hI.update hm hlive hget KeyEq.keyLocal_insert (push_eq_insert hnone v))
    | true =>
      exact follows_lin (.key (.insertOrAssign k v)) rfl rfl (.key m _)
        (hI.update hm hlive hget KeyEq.keyLocal_insertOrAssign
          (push_eq_insertOrAssign hnone v))
  | pushThrow _ k v r counted =>
    cases counted with
    | false => exact follows_lin (.key (.insert k v)) rfl rfl (.thrown m _) hm
    | true => exact follows_lin (.key (.insertOrAssign k v)) rfl rfl (.thrown m _) hm
  | countPushed hr =>
    rw [copy_setBucket (Shared.deref_eq_some hr).2 rfl]
    exact follows_stutter rfl hm
  | @erase _ k r i b hr =>
    have hget := (Shared.deref_eq_some hr).2
    obtain ⟨hlive, hf⟩ := hplaces
    have hdistinct := (hI.lookup hm hlive hget).2
    exact follows_lin (.key (.remove k)) rfl rfl (.key m _)
      (hI.update hm hlive hget KeyEq.keyLocal_erase
        (eraseIdx_eq_erase hdistinct (hfound hget hf)))
  | countErased hr =>
    rw [copy_setBucket (Shared.deref_eq_some hr).2 rfl]
    exact follows_stutter rfl hm

/-- INTERNAL: the calls that go through the buckets one by one. -/
theorem readStep_follows [DecidableEq Tid] {d : List (K × V)} (hm : d.Perm m.entries)
    (h : ReadStep t p s l p' s') : Follows m p l p' d ∧ s'.table.copy = s.table.copy := by
  cases h with
  | lock hg => exact ⟨follows_stutter rfl hm, rfl⟩
  | test _ q x =>
    refine ⟨?_, rfl⟩
    unfold afterReadTest
    split
    · exact follows_lin (.read q) rfl rfl (.read m q _) hm
    · exact follows_stutter rfl hm
  | bucketLock hr hg =>
    exact ⟨follows_stutter rfl hm,
      congrArg _ (Shared.setBucket_hold_table (Shared.deref_eq_some hr).2 t _)⟩
  | bucket hr => exact ⟨follows_stutter rfl hm, rfl⟩
  | bucketThrow _ x => exact ⟨follows_lin (.read .copy) rfl rfl (.thrown m _) hm, rfl⟩
  | bucketUnlock hr =>
    exact ⟨follows_stutter rfl hm,
      congrArg _ (Shared.setBucket_hold_table (Shared.deref_eq_some hr).2 t _)⟩
  | countLock hg => exact ⟨follows_stutter rfl hm, rfl⟩
  | countRead _ => exact ⟨follows_lin .bucketsCount rfl rfl (.bucketsCount m _) hm, rfl⟩

/-- INTERNAL: buckets without entries have no contents. -/
theorem copy_of_empty {T : TsExHashmap K V} (h : ∀ b ∈ T.mBuckets, b.mData = []) :
    T.copy = [] := by
  rw [TsExHashmap.copy, List.flatten_eq_nil_iff]
  intro d hd
  obtain ⟨b, hb, rfl⟩ := List.mem_map.mp hd
  exact h b hb

/-- INTERNAL: a new map has no contents. -/
theorem copy_new (n : ℕ) : (TsExHashmap.new n : TsExHashmap K V).copy = [] := by
  refine copy_of_empty fun b hb => ?_
  obtain rfl : b = Bucket.new := List.eq_of_mem_replicate hb
  rfl

/-- INTERNAL: the steps of `rehash` keep the contents, of which it moves some. -/
theorem rehashStep_follows [DecidableEq Tid] (hA : Asserts H.toKeys t p s)
    (hm : (s.table.copy ++ moved).Perm m.entries)
    (hmoved : p.mapHold = .exclusive → moved = p.moved)
    (hfree : (∀ u, s.mMut u ≠ .exclusive) → moved = [])
    (h : RehashStep H.toKeys t p s l p' s') :
    Follows m p l p' (s'.table.copy ++ p'.moved) := by
  have hplaces := hA.places
  cases h with
  | lock hg =>
    obtain rfl := hfree (SharedMutex.not_exclusive_of_free hg)
    exact follows_stutter rfl hm
  | sum hlast hr =>
    obtain rfl := hmoved rfl
    exact follows_stutter rfl hm
  | sumEnd hlast =>
    obtain rfl := hmoved rfl
    exact follows_stutter rfl hm
  | make _ lf sz =>
    obtain rfl := hmoved rfl
    refine follows_lin (.rehash lf) rfl rfl (.rehash m lf) ?_
    rw [Pc.moved, copy_new]
    exact hm
  | makeThrow _ lf sz =>
    obtain rfl := hmoved rfl
    exact follows_lin (.rehash lf) rfl rfl (.thrown m _) hm
  | @move _ c tmp b e oldData hlast hr hdata =>
    obtain rfl := hmoved rfl
    have hget := Shared.table_getElem? (Shared.deref_eq_some hr).2
    obtain ⟨tmp', htmp', hholds⟩ := moveNode_holds hplaces.1 e
    rw [htmp']
    refine follows_stutter rfl (List.Perm.trans ?_ hm)
    have hpart : (s.table.mBuckets.map Bucket.mData)[c.index]? = some (e :: oldData) := by
      rw [List.getElem?_map, hget, Option.map_some, hdata]
    have hout := Maps.flatten_perm hpart
    have hleft := Maps.flatten_set_perm hpart oldData
    rw [Shared.setBucket_table, TsExHashmap.copy, List.map_set]
    -- the node leaves its bucket and enters the new vector
    refine (hleft.append hholds.holds.entries).trans (List.perm_middle.trans ?_)
    exact (hout.append_right tmp.copy).symm
  | moveNext hlast hr hdata =>
    obtain rfl := hmoved rfl
    exact follows_stutter rfl hm
  | moveEnd hlast =>
    obtain rfl := hmoved rfl
    exact follows_stutter rfl hm
  | swap _ tmp =>
    obtain rfl := hmoved rfl
    rw [Pc.moved, copy_of_empty hplaces.2] at hm
    refine follows_stutter rfl ?_
    rw [table_map_newLocked]
    simpa [Pc.moved, TsExHashmap.copy] using hm
  | count _ sz =>
    obtain rfl := hmoved rfl
    exact follows_stutter rfl hm
  | unlock _ res =>
    obtain rfl := hmoved rfl
    exact follows_stutter rfl hm

end Contents

end UbuntuProjects.TsExHashmap
