import UbuntuProjects.Concurrency.Linearizable
import UbuntuProjects.Concurrency.SharedMutex
import UbuntuProjects.Model.TsExHashmap

/-!
# `ts_ex_hashmap`: what threads do with one map

The calls of `ts_adv::ts_ex_hashmap` step by step. A call for one key shares `m_mut`,
chooses the bucket, locks its mutex and works in the bucket; `size`, `copy` and
`load_factor` share `m_mut` and go through the buckets one by one; `rehash` holds `m_mut`
exclusively, goes through the buckets without their mutexes, and swaps in the new vector.

`m_buckets` owns its storage, which has a number; a reference to a bucket and an iterator
remember the storage they point into, and are of no use once a swap has replaced it.
Copying a key or a value, allocating a node or the new vector, comparing keys and writing
to an output iterator may throw: then the locks are released in the reverse order. An
assignment that throws may leave any value behind.

The steps of a thread are the statements between which another thread can see a
difference. Control goes to `undefined` where the source divides by zero or leaves the
range of a vector.
-/

set_option autoImplicit false

namespace UbuntuProjects.TsExHashmap

open Concurrency (Config Event Hold SharedMutex)
open Hashmap

/-! ## The state -/

/-- `bucket_type`.
SRCLINE: threadsafe_extended_hashmap.h:42-46 -/
structure LockedBucket (Tid K V : Type) extends Bucket K V where
  mMut : SharedMutex Tid

/-- The members of the map, and the number of the storage that `m_buckets` owns.
SRCLINE: threadsafe_extended_hashmap.h:205-209 -/
structure Shared (Tid K V : Type) where
  mMut : SharedMutex Tid
  mBucketsCount : ℕ
  mBuckets : List (LockedBucket Tid K V)
  storage : ℕ

/-- A reference to a bucket. -/
structure BucketRef where
  storage : ℕ
  index : ℕ

/-- An iterator in a loop over all buckets, with the index of the end. -/
structure Cursor extends BucketRef where
  last : ℕ

/-- The next bucket. -/
def Cursor.next (c : Cursor) : Cursor := { c with index := c.index + 1 }

section State

variable {Tid K V : Type}

/-- A bucket with a new mutex. -/
def newLocked (b : Bucket K V) : LockedBucket Tid K V := { b with mMut := .unlocked }

/-- The map without its mutexes. -/
def Shared.table (s : Shared Tid K V) : TsExHashmap K V :=
  ⟨s.mBucketsCount, s.mBuckets.map LockedBucket.toBucket⟩

/-- The bucket that a reference points to. -/
def Shared.deref (s : Shared Tid K V) (r : BucketRef) : Option (LockedBucket Tid K V) :=
  if r.storage = s.storage then s.mBuckets[r.index]? else none

/-- The iterators at the begin and at the end. -/
def Shared.begin (s : Shared Tid K V) : Cursor := ⟨⟨s.storage, 0⟩, s.mBuckets.length⟩

/-- Writing a bucket. -/
def Shared.setBucket (s : Shared Tid K V) (i : ℕ) (b : LockedBucket Tid K V) :
    Shared Tid K V :=
  { s with mBuckets := s.mBuckets.set i b }

/-- Working in a bucket. -/
def LockedBucket.change (b : LockedBucket Tid K V) (f : Bucket K V → Bucket K V) :
    LockedBucket Tid K V :=
  { b with toBucket := f b.toBucket }

variable [DecidableEq Tid]

/-- Taking or releasing `m_mut` of the map. -/
def Shared.holdMap (s : Shared Tid K V) (t : Tid) (h : Hold) : Shared Tid K V :=
  { s with mMut := Function.update s.mMut t h }

/-- Taking or releasing `m_mut` of a bucket. -/
def LockedBucket.hold (b : LockedBucket Tid K V) (t : Tid) (h : Hold) :
    LockedBucket Tid K V :=
  { b with mMut := Function.update b.mMut t h }

end State

/-! ## The calls -/

/-- The calls that go through the buckets one by one. -/
inductive Reading where
  | size
  | copy
  | loadFactor

/-- The calls a client can make. -/
inductive Op (K V : Type) where
  | key (o : KeyOp K V)
  | read (q : Reading)
  | bucketsCount
  | rehash (lf : LoadFactor)

/-- The result of a call. A load factor is `none` if there is no bucket to divide by. -/
inductive Result (K V : Type) where
  | of (r : Res V)
  | size (n : ℕ)
  | copied (out : List (K × V))
  | factor (q : Option ℚ)
  | thrown

/-- How a call for one key holds the mutex of the bucket.
SRCLINE: threadsafe_extended_hashmap.h:125, 131, 144, 156, 168, 180 -/
def bucketHold {K V : Type} : KeyOp K V → Hold
  | .mappedFor _ => .shared
  | _ => .exclusive

/-- A loop over the buckets: the iterator, and what has been summed up and copied. -/
structure Scan (K V : Type) where
  cursor : Cursor
  sz : ℕ
  out : List (K × V)

section Readings

variable {K V : Type}

/-- What a loop does in one bucket.
SRCLINE: threadsafe_extended_hashmap.h:108-112, 194-198, 237, 245-247, 295 -/
def Reading.visit (q : Reading) (x : Scan K V) (b : Bucket K V) : Scan K V :=
  match q with
  | .copy => { x with out := x.out ++ b.mData }
  | .size | .loadFactor => { x with sz := x.sz + b.mSize }

/-- What a call returns after its loop.
SRCLINE: threadsafe_extended_hashmap.h:238, 248, 296 -/
def Reading.result (q : Reading) (x : Scan K V) (mBucketsCount : ℕ) : Result K V :=
  match q with
  | .size => .size x.sz
  | .copy => .copied x.out
  | .loadFactor =>
    .factor (if mBucketsCount = 0 then none else some ((x.sz : ℚ) / mBucketsCount))

end Readings

/-! ## Control points -/

/-- The control points of one thread. -/
inductive Pc (K V : Type) where
  | idle
  | returning (r : Result K V)
  /-- the source has no behaviour -/
  | undefined
  /-- in a call for one key, before sharing `m_mut` -/
  | keyLock (o : KeyOp K V)
  | bucketFor (o : KeyOp K V)
  | bucketLock (o : KeyOp K V) (b : BucketRef)
  /-- before `find_entry` or `find_before_entry`, holding both mutexes -/
  | find (o : KeyOp K V) (b : BucketRef)
  | assign (k : K) (m : V) (b : BucketRef) (i : ℕ)
  /-- in `insert_or_assign`, before `++m_size` -/
  | countFirst (k : K) (m : V) (b : BucketRef)
  /-- before `push_front`, after `++m_size` or not -/
  | push (k : K) (m : V) (b : BucketRef) (counted : Bool)
  /-- in `insert`, before `++m_size` -/
  | countPushed (b : BucketRef)
  | erase (k : K) (b : BucketRef) (i : ℕ)
  | countErased (b : BucketRef)
  | bucketUnlock (h : Hold) (b : BucketRef) (r : Result K V)
  | mapUnlock (r : Result K V)
  | readLock (q : Reading)
  /-- at the test of a loop over the buckets -/
  | readTest (q : Reading) (x : Scan K V)
  | readBucketLock (q : Reading) (x : Scan K V)
  | readBucket (q : Reading) (x : Scan K V)
  | readBucketUnlock (q : Reading) (x : Scan K V)
  | countLock
  | countRead
  | rehashLock (lf : LoadFactor)
  /-- in the loop that counts the entries -/
  | rehashSum (lf : LoadFactor) (c : Cursor) (sz : ℕ)
  /-- before the construction of `tmp` -/
  | rehashMake (lf : LoadFactor) (sz : ℕ)
  /-- in the loops that move the nodes -/
  | rehashMove (c : Cursor) (tmp : TsExHashmap K V)
  | rehashSwap (tmp : TsExHashmap K V)
  | rehashCount (sz : ℕ)
  | rehashUnlock (r : Result K V)

section Transitions

variable {K V : Type}

/-- The control point at which a call starts. -/
def Op.entry : Op K V → Pc K V
  | .key o => .keyLock o
  | .read q => .readLock q
  | .bucketsCount => .countLock
  | .rehash lf => .rehashLock lf

/-- What follows the choice of the bucket. -/
def afterBucketFor (o : KeyOp K V) (storage : ℕ) (i : Option ℕ) : Pc K V :=
  match i with
  | some i => .bucketLock o ⟨storage, i⟩
  | none => .undefined

/-- What follows the search in the bucket.
SRCLINE: threadsafe_extended_hashmap.h:114-187 -/
def afterFind (H : Keys K) (o : KeyOp K V) (r : BucketRef) (b : Bucket K V) : Pc K V :=
  match o with
  | .insert k m =>
    match findEntry H k b.mData with
    | none => .push k m r false
    | some _ => .bucketUnlock .exclusive r (.of (.bool false))
  | .insertOrAssign k m =>
    match findEntry H k b.mData with
    | some i => .assign k m r i
    | none => .countFirst k m r
  | .remove k =>
    match findBeforeEntry H k b.mData with
    | some i => .erase k r i
    | none => .bucketUnlock .exclusive r (.of .void)
  | .mappedFor k => .bucketUnlock .shared r (.of (.value (b.mappedFor H k)))

/-- What follows `push_front`. -/
def afterPush (r : BucketRef) (counted : Bool) : Pc K V :=
  if counted then .bucketUnlock .exclusive r (.of .void) else .countPushed r

/-- What follows the test of a loop over the buckets. -/
def afterReadTest (q : Reading) (x : Scan K V) (mBucketsCount : ℕ) : Pc K V :=
  if x.cursor.index = x.cursor.last then .mapUnlock (q.result x mBucketsCount)
  else .readBucketLock q x

/-- What follows the move of a node. -/
def afterMove (c : Cursor) (tmp : Option (TsExHashmap K V)) : Pc K V :=
  match tmp with
  | some tmp => .rehashMove c tmp
  | none => .undefined

end Transitions

/-! ## Steps -/

/-- The label of a step: what an observer sees of it. -/
abbrev Lab (K V : Type) : Type := Option (Event (Op K V) (Result K V))

section Steps

variable {Tid K V : Type} [DecidableEq Tid]

/-- Calls and returns. -/
inductive ClientStep (t : Tid) :
    Pc K V → Shared Tid K V → Lab K V → Pc K V → Shared Tid K V → Prop
  | call (s : Shared Tid K V) (op : Op K V) :
      ClientStep t .idle s (some (.call op)) op.entry s
  | ret (s : Shared Tid K V) (r : Result K V) :
      ClientStep t (.returning r) s (some (.ret r)) .idle s

/-- The calls for one key: the mutexes, the choice of the bucket and the search.
SRCLINE: threadsafe_extended_hashmap.h:211-217, 251-290 -/
inductive KeyStep (H : Keys K) (t : Tid) :
    Pc K V → Shared Tid K V → Lab K V → Pc K V → Shared Tid K V → Prop
  | lock {s : Shared Tid K V} {o : KeyOp K V} : s.mMut.Grants .shared →
      KeyStep H t (.keyLock o) s none (.bucketFor o) (s.holdMap t .shared)
  | bucketFor (s : Shared Tid K V) (o : KeyOp K V) :
      KeyStep H t (.bucketFor o) s none
        (afterBucketFor o s.storage (s.table.bucketFor H o.key)) s
  | bucketLock {s : Shared Tid K V} {o : KeyOp K V} {r : BucketRef}
      {b : LockedBucket Tid K V} : s.deref r = some b → b.mMut.Grants (bucketHold o) →
      KeyStep H t (.bucketLock o r) s none (.find o r)
        (s.setBucket r.index (b.hold t (bucketHold o)))
  | find {s : Shared Tid K V} {o : KeyOp K V} {r : BucketRef} {b : LockedBucket Tid K V} :
      s.deref r = some b →
      KeyStep H t (.find o r) s none (afterFind H o r b.toBucket) s
  | findThrow (s : Shared Tid K V) (o : KeyOp K V) (r : BucketRef) :
      KeyStep H t (.find o r) s none (.bucketUnlock (bucketHold o) r .thrown) s
  | bucketUnlock {s : Shared Tid K V} {h : Hold} {r : BucketRef} {res : Result K V}
      {b : LockedBucket Tid K V} : s.deref r = some b →
      KeyStep H t (.bucketUnlock h r res) s none (.mapUnlock res)
        (s.setBucket r.index (b.hold t .free))
  | mapUnlock (s : Shared Tid K V) (res : Result K V) :
      KeyStep H t (.mapUnlock res) s none (.returning res) (s.holdMap t .free)

/-- The work in the bucket after the search.
SRCLINE: threadsafe_extended_hashmap.h:129-187 -/
inductive BucketStep (t : Tid) :
    Pc K V → Shared Tid K V → Lab K V → Pc K V → Shared Tid K V → Prop
  | assign {s : Shared Tid K V} {k : K} {m : V} {r : BucketRef} {i : ℕ}
      {b : LockedBucket Tid K V} : s.deref r = some b →
      BucketStep t (.assign k m r i) s none (.bucketUnlock .exclusive r (.of .void))
        (s.setBucket r.index (b.change fun b => b.assign i m))
  /-- an assignment that throws leaves some value `m'` behind -/
  | assignThrow {s : Shared Tid K V} {k : K} {m m' : V} {r : BucketRef} {i : ℕ}
      {b : LockedBucket Tid K V} : s.deref r = some b →
      BucketStep t (.assign k m r i) s none (.bucketUnlock .exclusive r .thrown)
        (s.setBucket r.index (b.change fun b => b.assign i m'))
  | countFirst {s : Shared Tid K V} {k : K} {m : V} {r : BucketRef}
      {b : LockedBucket Tid K V} : s.deref r = some b →
      BucketStep t (.countFirst k m r) s none (.push k m r true)
        (s.setBucket r.index (b.change Bucket.countUp))
  | push {s : Shared Tid K V} {k : K} {m : V} {r : BucketRef} {counted : Bool}
      {b : LockedBucket Tid K V} : s.deref r = some b →
      BucketStep t (.push k m r counted) s none (afterPush r counted)
        (s.setBucket r.index (b.change fun b => b.pushFront k m))
  | pushThrow (s : Shared Tid K V) (k : K) (m : V) (r : BucketRef) (counted : Bool) :
      BucketStep t (.push k m r counted) s none (.bucketUnlock .exclusive r .thrown) s
  | countPushed {s : Shared Tid K V} {r : BucketRef} {b : LockedBucket Tid K V} :
      s.deref r = some b →
      BucketStep t (.countPushed r) s none
        (.bucketUnlock .exclusive r (.of (.bool true)))
        (s.setBucket r.index (b.change Bucket.countUp))
  | erase {s : Shared Tid K V} {k : K} {r : BucketRef} {i : ℕ}
      {b : LockedBucket Tid K V} : s.deref r = some b →
      BucketStep t (.erase k r i) s none (.countErased r)
        (s.setBucket r.index (b.change fun b => b.eraseAfter i))
  | countErased {s : Shared Tid K V} {r : BucketRef} {b : LockedBucket Tid K V} :
      s.deref r = some b →
      BucketStep t (.countErased r) s none (.bucketUnlock .exclusive r (.of .void))
        (s.setBucket r.index (b.change Bucket.countDown))

/-- `size`, `copy`, `load_factor` and `buckets_count`.
SRCLINE: threadsafe_extended_hashmap.h:228-249, 291-297 -/
inductive ReadStep (t : Tid) :
    Pc K V → Shared Tid K V → Lab K V → Pc K V → Shared Tid K V → Prop
  | lock {s : Shared Tid K V} {q : Reading} : s.mMut.Grants .shared →
      ReadStep t (.readLock q) s none (.readTest q ⟨s.begin, 0, []⟩) (s.holdMap t .shared)
  | test (s : Shared Tid K V) (q : Reading) (x : Scan K V) :
      ReadStep t (.readTest q x) s none (afterReadTest q x s.mBucketsCount) s
  | bucketLock {s : Shared Tid K V} {q : Reading} {x : Scan K V}
      {b : LockedBucket Tid K V} : s.deref x.cursor.toBucketRef = some b →
      b.mMut.Grants .shared →
      ReadStep t (.readBucketLock q x) s none (.readBucket q x)
        (s.setBucket x.cursor.index (b.hold t .shared))
  | bucket {s : Shared Tid K V} {q : Reading} {x : Scan K V} {b : LockedBucket Tid K V} :
      s.deref x.cursor.toBucketRef = some b →
      ReadStep t (.readBucket q x) s none (.readBucketUnlock q (q.visit x b.toBucket)) s
  /-- the output iterator throws -/
  | bucketThrow (s : Shared Tid K V) (x : Scan K V) :
      ReadStep t (.readBucket .copy x) s none
        (.bucketUnlock .shared x.cursor.toBucketRef .thrown) s
  | bucketUnlock {s : Shared Tid K V} {q : Reading} {x : Scan K V}
      {b : LockedBucket Tid K V} : s.deref x.cursor.toBucketRef = some b →
      ReadStep t (.readBucketUnlock q x) s none
        (.readTest q { x with cursor := x.cursor.next })
        (s.setBucket x.cursor.index (b.hold t .free))
  | countLock {s : Shared Tid K V} : s.mMut.Grants .shared →
      ReadStep t .countLock s none .countRead (s.holdMap t .shared)
  | countRead (s : Shared Tid K V) :
      ReadStep t .countRead s none (.mapUnlock (.size s.mBucketsCount)) s

/-- `rehash`.
SRCLINE: threadsafe_extended_hashmap.h:298-325 -/
inductive RehashStep (H : Keys K) (t : Tid) :
    Pc K V → Shared Tid K V → Lab K V → Pc K V → Shared Tid K V → Prop
  | lock {s : Shared Tid K V} {lf : LoadFactor} : s.mMut.Grants .exclusive →
      RehashStep H t (.rehashLock lf) s none (.rehashSum lf s.begin 0)
        (s.holdMap t .exclusive)
  | sum {s : Shared Tid K V} {lf : LoadFactor} {c : Cursor} {sz : ℕ}
      {b : LockedBucket Tid K V} : c.index ≠ c.last → s.deref c.toBucketRef = some b →
      RehashStep H t (.rehashSum lf c sz) s none (.rehashSum lf c.next (sz + b.mSize)) s
  | sumEnd {s : Shared Tid K V} {lf : LoadFactor} {c : Cursor} {sz : ℕ} :
      c.index = c.last →
      RehashStep H t (.rehashSum lf c sz) s none (.rehashMake lf (rehashCount sz lf)) s
  | make (s : Shared Tid K V) (lf : LoadFactor) (sz : ℕ) :
      RehashStep H t (.rehashMake lf sz) s none
        (.rehashMove s.begin (TsExHashmap.new sz)) s
  | makeThrow (s : Shared Tid K V) (lf : LoadFactor) (sz : ℕ) :
      RehashStep H t (.rehashMake lf sz) s none (.rehashUnlock .thrown) s
  | move {s : Shared Tid K V} {c : Cursor} {tmp : TsExHashmap K V}
      {b : LockedBucket Tid K V} {e : K × V} {oldData : List (K × V)} :
      c.index ≠ c.last → s.deref c.toBucketRef = some b → b.mData = e :: oldData →
      RehashStep H t (.rehashMove c tmp) s none (afterMove c (moveNode H e tmp))
        (s.setBucket c.index (b.change fun b => { b with mData := oldData }))
  | moveNext {s : Shared Tid K V} {c : Cursor} {tmp : TsExHashmap K V}
      {b : LockedBucket Tid K V} : c.index ≠ c.last → s.deref c.toBucketRef = some b →
      b.mData = [] →
      RehashStep H t (.rehashMove c tmp) s none (.rehashMove c.next tmp) s
  | moveEnd {s : Shared Tid K V} {c : Cursor} {tmp : TsExHashmap K V} : c.index = c.last →
      RehashStep H t (.rehashMove c tmp) s none (.rehashSwap tmp) s
  | swap (s : Shared Tid K V) (tmp : TsExHashmap K V) :
      RehashStep H t (.rehashSwap tmp) s none (.rehashCount tmp.mBucketsCount)
        { s with mBuckets := tmp.mBuckets.map newLocked, storage := s.storage + 1 }
  | count (s : Shared Tid K V) (sz : ℕ) :
      RehashStep H t (.rehashCount sz) s none (.rehashUnlock (.of .void))
        { s with mBucketsCount := sz }
  | unlock (s : Shared Tid K V) (res : Result K V) :
      RehashStep H t (.rehashUnlock res) s none (.returning res) (s.holdMap t .free)

/-- The steps of one thread. -/
inductive HashmapStep (H : Keys K) (t : Tid) :
    Pc K V → Shared Tid K V → Lab K V → Pc K V → Shared Tid K V → Prop
  | client {p p' : Pc K V} {s s' : Shared Tid K V} {l : Lab K V} :
      ClientStep t p s l p' s' → HashmapStep H t p s l p' s'
  | key {p p' : Pc K V} {s s' : Shared Tid K V} {l : Lab K V} :
      KeyStep H t p s l p' s' → HashmapStep H t p s l p' s'
  | bucket {p p' : Pc K V} {s s' : Shared Tid K V} {l : Lab K V} :
      BucketStep t p s l p' s' → HashmapStep H t p s l p' s'
  | read {p p' : Pc K V} {s s' : Shared Tid K V} {l : Lab K V} :
      ReadStep t p s l p' s' → HashmapStep H t p s l p' s'
  | rehash {p p' : Pc K V} {s s' : Shared Tid K V} {l : Lab K V} :
      RehashStep H t p s l p' s' → HashmapStep H t p s l p' s'

end Steps

/-- A map just constructed, and every thread is idle.
SRCLINE: threadsafe_extended_hashmap.h:220-225 -/
def newMap (Tid K V : Type) (bucketsCount : ℕ) : Config Tid (Pc K V) (Shared Tid K V) :=
  ⟨fun _ => .idle, ⟨.unlocked, bucketsCount,
    (TsExHashmap.new bucketsCount).mBuckets.map newLocked, 0⟩⟩

/-- Whoever is about to take `m_mut` for `rehash` finds that the counters are not all
zero. -/
def RehashNonempty {Tid K V : Type} (c : Config Tid (Pc K V) (Shared Tid K V))
    (e : Tid × Lab K V) : Prop :=
  ∀ lf, c.pc e.1 = .rehashLock lf → TsExHashmap.size c.sh.table ≠ 0

end UbuntuProjects.TsExHashmap
