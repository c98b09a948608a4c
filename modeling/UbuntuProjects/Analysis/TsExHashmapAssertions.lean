import UbuntuProjects.Analysis.HashmapEquivalence
import UbuntuProjects.Model.TsExHashmapThreads

/-!
# `ts_ex_hashmap`: what a thread knows at each control point

A thread holds `m_mut` of the map and of one bucket as its control point says
(`Pc.mapHold`, `Pc.bucketHeld`). While it holds `m_mut` of the map the vector stays, so its
references and iterators point into the vector; while it holds the mutex of a bucket the
bucket stays, so what it has found there is still there. In `rehash` it holds `m_mut`
exclusively, and the whole table stays.

Outside `rehash` the table is consistent: `m_buckets_count` is the number of the buckets,
and there is at least one (`Consistent`). Every entry is in the bucket of its hash at any
time.

`Rely` is what the steps of the other threads leave to a thread.
-/

set_option autoImplicit false

namespace UbuntuProjects.TsExHashmap

open Concurrency (Hold SharedMutex)
open Hashmap
open Maps (Placed)

variable {Tid K V : Type}

/-! ## The assertions -/

/-- How thread `t` holds the mutex of bucket `i`. -/
def Shared.holdAt (s : Shared Tid K V) (i : ℕ) (t : Tid) : Hold :=
  (s.mBuckets[i]?).elim .free fun b => b.mMut t

/-- `m_buckets_count` is the number of the buckets, of which there is at least one. -/
structure Consistent (T : TsExHashmap K V) : Prop where
  count : T.mBucketsCount = T.mBuckets.length
  pos : 0 < T.mBuckets.length

/-- The assertion about the shared state. -/
structure SharedInv (H : Keys K) (s : Shared Tid K V) : Prop where
  map : s.mMut.Valid
  bucket : ∀ i, SharedMutex.Valid (s.holdAt i)
  nested : ∀ i t, s.holdAt i t ≠ .free → s.mMut t = .shared
  consistent : (∀ t, s.mMut t ≠ .exclusive) → Consistent s.table
  placed : Placed (fun k => H.hasher k % s.table.mBuckets.length)
    (s.table.mBuckets.map Bucket.mData)

/-- How a thread holds `m_mut` of the map. -/
def Pc.mapHold : Pc K V → Hold
  | .idle | .returning _ | .undefined | .keyLock _ | .readLock _ | .countLock
  | .rehashLock _ => .free
  | .rehashSum _ _ _ | .rehashMake _ _ | .rehashMove _ _ | .rehashSwap _ | .rehashCount _
  | .rehashUnlock _ => .exclusive
  | _ => .shared

/-- The bucket whose mutex a thread holds, and how. -/
def Pc.bucketHeld : Pc K V → Option (ℕ × Hold)
  | .find o r => some (r.index, bucketHold o)
  | .assign _ _ r _ | .countFirst _ _ r | .push _ _ r _ | .countPushed r | .erase _ r _
  | .countErased r => some (r.index, .exclusive)
  | .bucketUnlock h r _ => some (r.index, h)
  | .readBucket _ x | .readBucketUnlock _ x => some (x.cursor.index, .shared)
  | _ => none

/-- How a thread holds the mutex of bucket `i`. -/
def heldAt (held : Option (ℕ × Hold)) (i : ℕ) : Hold :=
  held.elim .free fun x => if i = x.1 then x.2 else .free

/-- A reference that points into the vector. -/
structure Live (T : TsExHashmap K V) (storage : ℕ) (r : BucketRef) : Prop where
  storage : r.storage = storage
  index : r.index < T.mBuckets.length

/-- A reference to the bucket of a key. -/
structure LiveFor (H : Keys K) (T : TsExHashmap K V) (storage : ℕ) (r : BucketRef) (k : K) :
    Prop extends Live T storage r where
  hash : r.index = H.hasher k % T.mBuckets.length

/-- A loop over the buckets that has come as far as the iterator. -/
structure Cursor.Within (c : Cursor) (T : TsExHashmap K V) (storage : ℕ) : Prop where
  storage : c.storage = storage
  last : c.last = T.mBuckets.length
  index : c.index ≤ c.last

/-- The search for the key in the bucket gives `x`. -/
def Found (H : Keys K) (T : TsExHashmap K V) (r : BucketRef) (k : K) (x : Option ℕ) : Prop :=
  ∃ b, T.mBuckets[r.index]? = some b ∧ findEntry H k b.mData = x

/-- What a thread knows about the table. -/
def Places (H : Keys K) (T : TsExHashmap K V) (storage : ℕ) : Pc K V → Prop
  | .undefined => False
  | .bucketLock o r | .find o r => LiveFor H T storage r o.key
  | .assign k _ r i | .erase k r i => LiveFor H T storage r k ∧ Found H T r k (some i)
  | .countFirst k _ r | .push k _ r _ => LiveFor H T storage r k ∧ Found H T r k none
  | .countPushed r | .countErased r | .bucketUnlock _ r _ => Live T storage r
  | .readTest _ x => x.cursor.Within T storage
  | .readBucketLock _ x | .readBucket _ x | .readBucketUnlock _ x =>
    x.cursor.Within T storage ∧ x.cursor.index ≠ x.cursor.last
  | .rehashSum _ c sz => Consistent T ∧ T.size ≠ 0 ∧ c.Within T storage ∧
    sz = ((T.mBuckets.take c.index).map Bucket.mSize).sum
  | .rehashMake _ sz => Consistent T ∧ 0 < sz
  | .rehashMove c tmp => HoldsCounted H tmp tmp.copy ∧ c.Within T storage ∧
    ∀ i < c.index, ∀ b, T.mBuckets[i]? = some b → b.mData = []
  | .rehashSwap tmp => HoldsCounted H tmp tmp.copy ∧ ∀ b ∈ T.mBuckets, b.mData = []
  | .rehashCount sz => sz = T.mBuckets.length ∧ 0 < sz
  | .rehashUnlock _ => Consistent T
  | _ => True

/-- The assertion of thread `t` at a control point. -/
structure Asserts (H : Keys K) (t : Tid) (p : Pc K V) (s : Shared Tid K V) : Prop where
  map : s.mMut t = p.mapHold
  bucket : ∀ i, s.holdAt i t = heldAt p.bucketHeld i
  places : Places H s.table s.storage p

/-! ## What the other threads leave -/

/-- What thread `u` may rely on when another thread takes a step. -/
structure Rely (u : Tid) (s s' : Shared Tid K V) : Prop where
  map : s'.mMut u = s.mMut u
  bucket : ∀ i, s'.holdAt i u = s.holdAt i u
  frame : s.mMut u ≠ .free →
    s'.storage = s.storage ∧ s'.table.mBuckets.length = s.table.mBuckets.length
  owned : ∀ i, s.holdAt i u ≠ .free → s'.table.mBuckets[i]? = s.table.mBuckets[i]?
  table : s.mMut u = .exclusive → s'.table = s.table

section Relies

variable {H : Keys K} {u : Tid} {s s' : Shared Tid K V} {T T' : TsExHashmap K V} {st : ℕ}

/-- INTERNAL: a reference stays live while the number of buckets stays. -/
theorem Live.congr {r : BucketRef} (h : Live T st r)
    (hlen : T'.mBuckets.length = T.mBuckets.length) : Live T' st r :=
  ⟨h.storage, hlen ▸ h.index⟩

/-- INTERNAL: a reference stays one to the bucket of its key. -/
theorem LiveFor.congr {r : BucketRef} {k : K} (h : LiveFor H T st r k)
    (hlen : T'.mBuckets.length = T.mBuckets.length) : LiveFor H T' st r k :=
  ⟨h.toLive.congr hlen, hlen ▸ h.hash⟩

/-- INTERNAL: an iterator stays within the vector. -/
theorem Cursor.Within.congr {c : Cursor} (h : c.Within T st)
    (hlen : T'.mBuckets.length = T.mBuckets.length) : c.Within T' st :=
  ⟨h.storage, h.last.trans hlen.symm, h.index⟩

/-- INTERNAL: what was found in a bucket is still there while the bucket stays. -/
theorem Found.congr {r : BucketRef} {k : K} {x : Option ℕ} (h : Found H T r k x)
    (hb : T'.mBuckets[r.index]? = T.mBuckets[r.index]?) : Found H T' r k x := by
  obtain ⟨b, hget, hfind⟩ := h
  exact ⟨b, hb.trans hget, hfind⟩

/-- The assertions of a thread are kept by the steps of the others. -/
theorem Asserts.rely {p : Pc K V} (h : Asserts H u p s) (hr : Rely u s s') :
    Asserts H u p s' := by
  obtain ⟨hmap, hbucket, hplaces⟩ := h
  refine ⟨hr.map.trans hmap, fun i => (hr.bucket i).trans (hbucket i), ?_⟩
  have hown : ∀ i x, p.bucketHeld = some (i, x) → x ≠ .free →
      s'.table.mBuckets[i]? = s.table.mBuckets[i]? := by
    intro i x hheld hx
    refine hr.owned i ?_
    rw [hbucket i, hheld]
    simpa [heldAt] using hx
  have hkeep : p.mapHold = .exclusive → s'.table = s.table := fun hp => hr.table (hmap.trans hp)
  have hframe : p.mapHold ≠ .free → s'.storage = s.storage ∧
      s'.table.mBuckets.length = s.table.mBuckets.length := fun hp => hr.frame (hmap ▸ hp)
  cases p with
  | bucketLock o r | find o r =>
    obtain ⟨hst, hlen⟩ := hframe (by simp [Pc.mapHold])
    rw [Places, hst]
    exact LiveFor.congr hplaces hlen
  | assign k m r i | erase k r i | countFirst k m r | push k m r c =>
    obtain ⟨hst, hlen⟩ := hframe (by simp [Pc.mapHold])
    rw [Places, hst]
    exact ⟨hplaces.1.congr hlen, hplaces.2.congr (hown _ _ rfl (by simp))⟩
  | countPushed r | countErased r | bucketUnlock x r res =>
    obtain ⟨hst, hlen⟩ := hframe (by simp [Pc.mapHold])
    rw [Places, hst]
    exact Live.congr hplaces hlen
  | readTest q x =>
    obtain ⟨hst, hlen⟩ := hframe (by simp [Pc.mapHold])
    rw [Places, hst]
    exact Cursor.Within.congr hplaces hlen
  | readBucketLock q x | readBucket q x | readBucketUnlock q x =>
    obtain ⟨hst, hlen⟩ := hframe (by simp [Pc.mapHold])
    rw [Places, hst]
    exact ⟨hplaces.1.congr hlen, hplaces.2⟩
  | rehashSum lf c sz | rehashMake lf sz | rehashMove c tmp | rehashSwap tmp | rehashCount sz
  | rehashUnlock res =>
    rw [hkeep rfl, (hframe (by simp [Pc.mapHold])).1]
    exact hplaces
  | undefined => exact hplaces
  | _ => trivial

end Relies

end UbuntuProjects.TsExHashmap
