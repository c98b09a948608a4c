import UbuntuProjects.Concurrency.Linearizable
import UbuntuProjects.Concurrency.SharedMutex
import UbuntuProjects.Model.TsHashmap

/-!
# `ts_hashmap`: what threads do with one map

The calls of `ts_adv::ts_hashmap` step by step. There is no mutex of the map: a call for one
key chooses its bucket, locks the mutex of the bucket and works in it, and `copy` locks one
bucket after the other, so that between two buckets it holds nothing. `m_buckets` is never
replaced, and a reference to a bucket is its index.

The loops of `find_if`, `remove_if` and `std::copy` take one entry at a time. Hashing and
comparing keys, copying keys and values, allocating a node and writing to an output iterator
may throw: then the mutex of the bucket is released. An assignment that throws may leave any
value behind, and `remove_if` has erased what it had found.

Control goes to `undefined` where the source divides by zero.
-/

set_option autoImplicit false

namespace UbuntuProjects.TsHashmap

open Concurrency (Config Event Hold SharedMutex)
open Hashmap

/-! ## The state -/

/-- `bucket_type`.
SRCLINE: threadsafe_hashmap.h:34-43 -/
structure LockedBucket (Tid K V : Type) where
  mMut : SharedMutex Tid
  mData : List (K × V)

/-- The members of the map.
SRCLINE: threadsafe_hashmap.h:146-147 -/
abbrev Shared (Tid K V : Type) : Type := Buckets (LockedBucket Tid K V)

section State

variable {Tid K V : Type}

/-- The map without its mutexes. -/
def table (s : Shared Tid K V) : TsHashmap K V :=
  ⟨s.mBucketsCount, s.mBuckets.map LockedBucket.mData⟩

/-- Writing a bucket. -/
def setBucket (s : Shared Tid K V) (i : ℕ) (b : LockedBucket Tid K V) : Shared Tid K V :=
  { s with mBuckets := s.mBuckets.set i b }

/-- Taking or releasing `m_mut` of a bucket. -/
def LockedBucket.hold [DecidableEq Tid] (b : LockedBucket Tid K V) (t : Tid) (h : Hold) :
    LockedBucket Tid K V :=
  { b with mMut := Function.update b.mMut t h }

end State

/-! ## The calls -/

/-- The calls a client can make. -/
inductive Op (K V : Type) where
  | key (o : KeyOp K V)
  | copy
  | bucketsCount

/-- The result of a call. -/
inductive Result (K V : Type) where
  | of (r : Res V)
  | copied (out : List (K × V))
  | count (n : ℕ)
  | thrown

/-- How a call for one key holds the mutex of the bucket.
SRCLINE: threadsafe_hashmap.h:82, 92, 105, 117, 128, 139 -/
def bucketHold {K V : Type} : KeyOp K V → Hold
  | .mappedFor _ => .shared
  | _ => .exclusive

/-- The control points of one thread. -/
inductive Pc (K V : Type) where
  | idle
  | returning (r : Result K V)
  /-- the source has no behaviour -/
  | undefined
  | bucketFor (o : KeyOp K V)
  | lock (o : KeyOp K V) (i : ℕ)
  /-- in the loop of `find_entry`, before the entry at `it` -/
  | find (o : KeyOp K V) (i it : ℕ)
  | assign (k : K) (m : V) (i it : ℕ)
  /-- before `push_front`, in `insert_or_assign` or in `insert` -/
  | push (k : K) (m : V) (i : ℕ) (orAssign : Bool)
  /-- before the copy of the mapped value -/
  | read (k : K) (i it : ℕ)
  /-- in the loop of `remove_if`, before the entry at `it` -/
  | removeIf (k : K) (i it : ℕ)
  | unlock (h : Hold) (i : ℕ) (r : Result K V)
  /-- in `copy`, at the test of the loop over the buckets -/
  | copyTest (i : ℕ) (out : List (K × V))
  | copyLock (i : ℕ) (out : List (K × V))
  /-- in the loop of `std::copy`, before the entry at `it` -/
  | copyEntry (i it : ℕ) (out : List (K × V))
  | copyUnlock (i : ℕ) (out : List (K × V))
  | countRead

section Transitions

variable {K V : Type}

/-- The control point at which a call starts. -/
def Op.entry : Op K V → Pc K V
  | .key o => .bucketFor o
  | .copy => .copyTest 0 []
  | .bucketsCount => .countRead

/-- What follows the choice of the bucket. -/
def afterBucketFor (o : KeyOp K V) (i : Option ℕ) : Pc K V :=
  match i with
  | some i => .lock o i
  | none => .undefined

/-- What follows the lock of the bucket: `remove` does not search first.
SRCLINE: threadsafe_hashmap.h:81-143 -/
def afterLock (o : KeyOp K V) (i : ℕ) : Pc K V :=
  match o with
  | .remove k => .removeIf k i 0
  | o => .find o i 0

/-- What follows the test of the loop over the buckets.
SRCLINE: threadsafe_hashmap.h:166-173 -/
def afterCopyTest (i : ℕ) (out : List (K × V)) (buckets : ℕ) : Pc K V :=
  if i = buckets then .returning (.copied out) else .copyLock i out

end Transitions

/-! ## Steps -/

/-- The label of a step: what an observer sees of it. -/
abbrev Lab (K V : Type) : Type := Option (Event (Op K V) (Result K V))

section Steps

variable {Tid K V : Type}

/-- Calls and returns, and `buckets_count`.
SRCLINE: threadsafe_hashmap.h:162-164 -/
inductive ClientStep : Pc K V → Shared Tid K V → Lab K V → Pc K V → Shared Tid K V → Prop
  | call (s : Shared Tid K V) (op : Op K V) :
      ClientStep .idle s (some (.call op)) op.entry s
  | ret (s : Shared Tid K V) (r : Result K V) :
      ClientStep (.returning r) s (some (.ret r)) .idle s
  | countRead (s : Shared Tid K V) :
      ClientStep .countRead s none (.returning (.count s.mBucketsCount)) s

/-- The search of an entry in the bucket.
SRCLINE: threadsafe_hashmap.h:45-59, 81-136 -/
inductive FindStep (H : Keys K) :
    Pc K V → Shared Tid K V → Lab K V → Pc K V → Shared Tid K V → Prop
  | next {s : Shared Tid K V} {o : KeyOp K V} {i it : ℕ} {b : LockedBucket Tid K V}
      {e : K × V} : s.mBuckets[i]? = some b → b.mData[it]? = some e →
      H.keyEqual e.1 o.key = false → FindStep H (.find o i it) s none (.find o i (it + 1)) s
  | threw (s : Shared Tid K V) (o : KeyOp K V) (i it : ℕ) :
      FindStep H (.find o i it) s none (.unlock (bucketHold o) i .thrown) s
  | foundInsert {s : Shared Tid K V} {k : K} {m : V} {i it : ℕ} {b : LockedBucket Tid K V}
      {e : K × V} : s.mBuckets[i]? = some b → b.mData[it]? = some e → H.keyEqual e.1 k →
      FindStep H (.find (.insert k m) i it) s none (.unlock .exclusive i (.of (.bool false))) s
  | foundAssign {s : Shared Tid K V} {k : K} {m : V} {i it : ℕ} {b : LockedBucket Tid K V}
      {e : K × V} : s.mBuckets[i]? = some b → b.mData[it]? = some e → H.keyEqual e.1 k →
      FindStep H (.find (.insertOrAssign k m) i it) s none (.assign k m i it) s
  | foundRead {s : Shared Tid K V} {k : K} {i it : ℕ} {b : LockedBucket Tid K V}
      {e : K × V} : s.mBuckets[i]? = some b → b.mData[it]? = some e → H.keyEqual e.1 k →
      FindStep H (.find (.mappedFor k) i it) s none (.read k i it) s
  | endInsert {s : Shared Tid K V} {k : K} {m : V} {i it : ℕ} {b : LockedBucket Tid K V} :
      s.mBuckets[i]? = some b → b.mData[it]? = none →
      FindStep H (.find (.insert k m) i it) s none (.push k m i false) s
  | endAssign {s : Shared Tid K V} {k : K} {m : V} {i it : ℕ} {b : LockedBucket Tid K V} :
      s.mBuckets[i]? = some b → b.mData[it]? = none →
      FindStep H (.find (.insertOrAssign k m) i it) s none (.push k m i true) s
  | endRead {s : Shared Tid K V} {k : K} {i it : ℕ} {b : LockedBucket Tid K V} :
      s.mBuckets[i]? = some b → b.mData[it]? = none →
      FindStep H (.find (.mappedFor k) i it) s none
        (.unlock .shared i (.of (.value none))) s

/-- The work in the bucket behind the search, and `remove_if`.
SRCLINE: threadsafe_hashmap.h:81-143 -/
inductive BucketStep (H : Keys K) :
    Pc K V → Shared Tid K V → Lab K V → Pc K V → Shared Tid K V → Prop
  | assign {s : Shared Tid K V} {k : K} {m : V} {i it : ℕ} {b : LockedBucket Tid K V} :
      s.mBuckets[i]? = some b →
      BucketStep H (.assign k m i it) s none (.unlock .exclusive i (.of (.bool false)))
        (setBucket s i { b with mData := assignAt it m b.mData })
  /-- an assignment that throws leaves some value `m'` behind -/
  | assignThrew {s : Shared Tid K V} {k : K} {m m' : V} {i it : ℕ}
      {b : LockedBucket Tid K V} : s.mBuckets[i]? = some b →
      BucketStep H (.assign k m i it) s none (.unlock .exclusive i .thrown)
        (setBucket s i { b with mData := assignAt it m' b.mData })
  | push {s : Shared Tid K V} {k : K} {m : V} {i : ℕ} {orAssign : Bool}
      {b : LockedBucket Tid K V} : s.mBuckets[i]? = some b →
      BucketStep H (.push k m i orAssign) s none (.unlock .exclusive i (.of (.bool true)))
        (setBucket s i { b with mData := (k, m) :: b.mData })
  | pushThrew (s : Shared Tid K V) (k : K) (m : V) (i : ℕ) (orAssign : Bool) :
      BucketStep H (.push k m i orAssign) s none (.unlock .exclusive i .thrown) s
  | read {s : Shared Tid K V} {k : K} {i it : ℕ} {b : LockedBucket Tid K V} {e : K × V} :
      s.mBuckets[i]? = some b → b.mData[it]? = some e →
      BucketStep H (.read k i it) s none (.unlock .shared i (.of (.value (some e.2)))) s
  | readThrew (s : Shared Tid K V) (k : K) (i it : ℕ) :
      BucketStep H (.read k i it) s none (.unlock .shared i .thrown) s
  | keep {s : Shared Tid K V} {k : K} {i it : ℕ} {b : LockedBucket Tid K V} {e : K × V} :
      s.mBuckets[i]? = some b → b.mData[it]? = some e → H.keyEqual e.1 k = false →
      BucketStep H (.removeIf k i it) s none (.removeIf k i (it + 1)) s
  | erase {s : Shared Tid K V} {k : K} {i it : ℕ} {b : LockedBucket Tid K V} {e : K × V} :
      s.mBuckets[i]? = some b → b.mData[it]? = some e → H.keyEqual e.1 k →
      BucketStep H (.removeIf k i it) s none (.removeIf k i it)
        (setBucket s i { b with mData := b.mData.eraseIdx it })
  | removed {s : Shared Tid K V} {k : K} {i it : ℕ} {b : LockedBucket Tid K V} :
      s.mBuckets[i]? = some b → b.mData[it]? = none →
      BucketStep H (.removeIf k i it) s none (.unlock .exclusive i (.of .void)) s
  | removeThrew (s : Shared Tid K V) (k : K) (i it : ℕ) :
      BucketStep H (.removeIf k i it) s none (.unlock .exclusive i .thrown) s

variable [DecidableEq Tid]

/-- The choice of the bucket and its mutex.
SRCLINE: threadsafe_hashmap.h:150-155, 175-207 -/
inductive LockStep (H : Keys K) (t : Tid) :
    Pc K V → Shared Tid K V → Lab K V → Pc K V → Shared Tid K V → Prop
  | bucketFor (s : Shared Tid K V) (o : KeyOp K V) :
      LockStep H t (.bucketFor o) s none (afterBucketFor o (s.bucketFor H o.key)) s
  /-- the hasher throws -/
  | hashThrew (s : Shared Tid K V) (o : KeyOp K V) :
      LockStep H t (.bucketFor o) s none (.returning .thrown) s
  | lock {s : Shared Tid K V} {o : KeyOp K V} {i : ℕ} {b : LockedBucket Tid K V} :
      s.mBuckets[i]? = some b → b.mMut.Grants (bucketHold o) →
      LockStep H t (.lock o i) s none (afterLock o i) (setBucket s i (b.hold t (bucketHold o)))
  | unlock {s : Shared Tid K V} {h : Hold} {i : ℕ} {r : Result K V}
      {b : LockedBucket Tid K V} : s.mBuckets[i]? = some b →
      LockStep H t (.unlock h i r) s none (.returning r) (setBucket s i (b.hold t .free))

/-- `copy`.
SRCLINE: threadsafe_hashmap.h:74-79, 166-173 -/
inductive CopyStep (t : Tid) :
    Pc K V → Shared Tid K V → Lab K V → Pc K V → Shared Tid K V → Prop
  | test (s : Shared Tid K V) (i : ℕ) (out : List (K × V)) :
      CopyStep t (.copyTest i out) s none (afterCopyTest i out s.mBuckets.length) s
  | lock {s : Shared Tid K V} {i : ℕ} {out : List (K × V)} {b : LockedBucket Tid K V} :
      s.mBuckets[i]? = some b → b.mMut.Grants .shared →
      CopyStep t (.copyLock i out) s none (.copyEntry i 0 out) (setBucket s i (b.hold t .shared))
  | entry {s : Shared Tid K V} {i it : ℕ} {out : List (K × V)} {b : LockedBucket Tid K V}
      {e : K × V} : s.mBuckets[i]? = some b → b.mData[it]? = some e →
      CopyStep t (.copyEntry i it out) s none (.copyEntry i (it + 1) (out ++ [e])) s
  /-- the output iterator throws -/
  | threw (s : Shared Tid K V) (i it : ℕ) (out : List (K × V)) :
      CopyStep t (.copyEntry i it out) s none (.unlock .shared i .thrown) s
  | copied {s : Shared Tid K V} {i it : ℕ} {out : List (K × V)} {b : LockedBucket Tid K V} :
      s.mBuckets[i]? = some b → b.mData[it]? = none →
      CopyStep t (.copyEntry i it out) s none (.copyUnlock i out) s
  | unlock {s : Shared Tid K V} {i : ℕ} {out : List (K × V)} {b : LockedBucket Tid K V} :
      s.mBuckets[i]? = some b →
      CopyStep t (.copyUnlock i out) s none (.copyTest (i + 1) out)
        (setBucket s i (b.hold t .free))

/-- The steps of one thread. -/
inductive HashmapStep (H : Keys K) (t : Tid) :
    Pc K V → Shared Tid K V → Lab K V → Pc K V → Shared Tid K V → Prop
  | client {p p' : Pc K V} {s s' : Shared Tid K V} {l : Lab K V} :
      ClientStep p s l p' s' → HashmapStep H t p s l p' s'
  | lock {p p' : Pc K V} {s s' : Shared Tid K V} {l : Lab K V} :
      LockStep H t p s l p' s' → HashmapStep H t p s l p' s'
  | find {p p' : Pc K V} {s s' : Shared Tid K V} {l : Lab K V} :
      FindStep H p s l p' s' → HashmapStep H t p s l p' s'
  | bucket {p p' : Pc K V} {s s' : Shared Tid K V} {l : Lab K V} :
      BucketStep H p s l p' s' → HashmapStep H t p s l p' s'
  | copy {p p' : Pc K V} {s s' : Shared Tid K V} {l : Lab K V} :
      CopyStep t p s l p' s' → HashmapStep H t p s l p' s'

end Steps

/-- A map just constructed, and every thread is idle.
SRCLINE: threadsafe_hashmap.h:157-160 -/
def newMap (Tid K V : Type) (bucketsCount : ℕ) : Config Tid (Pc K V) (Shared Tid K V) :=
  ⟨fun _ => .idle, bucketsCount, List.replicate bucketsCount ⟨.unlocked, []⟩⟩

end UbuntuProjects.TsHashmap
