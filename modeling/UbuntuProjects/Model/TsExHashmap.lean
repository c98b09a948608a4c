import Mathlib.Data.Rat.Floor
import UbuntuProjects.Model.TsHashmap

/-!
# `ts_ex_hashmap`: a hash map that counts its entries and can be rehashed

The model of `ts_adv::ts_ex_hashmap` (threadsafe_extended_hashmap.h), one call after
another: the buckets with their counters (`Bucket`), the calls for one key and `rehash`,
which moves the nodes one by one into a new vector (`moveBuckets`). What threads see of
the steps of a call is modelled in `TsExHashmapThreads`.

Load factors are positive rationals, and counters are natural numbers: a counter counts
nodes that are in memory at the same time.
-/

set_option autoImplicit false

namespace UbuntuProjects.Hashmap

variable {K V : Type}

/-! ## One bucket -/

/-- `bucket_type`, without its mutex.
SRCLINE: threadsafe_extended_hashmap.h:42-46 -/
structure Bucket (K V : Type) where
  mData : List (K × V)
  mSize : ℕ

/-- SRCLINE: threadsafe_extended_hashmap.h:48 -/
def Bucket.new : Bucket K V := ⟨[], 0⟩

/-- The loop of `find_before_entry`: `b_it` counts the entries in front of the position
before which it stands.
SRCLINE: threadsafe_extended_hashmap.h:82-104 -/
def findBefore (H : Keys K) (k : K) : List (K × V) → ℕ → Option ℕ
  | [], _ => none
  | e :: it, b => if H.keyEqual e.1 k then some b else findBefore H k it (b + 1)

/-- The number of entries in front of the first one with the key, or the end.
SRCLINE: threadsafe_extended_hashmap.h:82-104 -/
def findBeforeEntry (H : Keys K) (k : K) (mData : List (K × V)) : Option ℕ :=
  findBefore H k mData 0

/-- `push_front`. -/
def Bucket.pushFront (b : Bucket K V) (k : K) (m : V) : Bucket K V :=
  { b with mData := (k, m) :: b.mData }

/-- `++m_size`. -/
def Bucket.countUp (b : Bucket K V) : Bucket K V := { b with mSize := b.mSize + 1 }

/-- `--m_size`. -/
def Bucket.countDown (b : Bucket K V) : Bucket K V := { b with mSize := b.mSize - 1 }

/-- `it->second=m`. -/
def Bucket.assign (b : Bucket K V) (i : ℕ) (m : V) : Bucket K V :=
  { b with mData := assignAt i m b.mData }

/-- `erase_after`, behind `i` entries. -/
def Bucket.eraseAfter (b : Bucket K V) (i : ℕ) : Bucket K V :=
  { b with mData := b.mData.eraseIdx i }

/-- `bucket_type::insert_or_assign`.
SRCLINE: threadsafe_extended_hashmap.h:129-153 -/
def Bucket.insertOrAssign (H : Keys K) (k : K) (m : V) (b : Bucket K V) : Bucket K V :=
  match findEntry H k b.mData with
  | some i => b.assign i m
  | none => b.countUp.pushFront k m

/-- `bucket_type::insert`.
SRCLINE: threadsafe_extended_hashmap.h:154-177 -/
def Bucket.insert (H : Keys K) (k : K) (m : V) (b : Bucket K V) : Bool × Bucket K V :=
  match findEntry H k b.mData with
  | none => (true, (b.pushFront k m).countUp)
  | some _ => (false, b)

/-- `bucket_type::remove`.
SRCLINE: threadsafe_extended_hashmap.h:179-187 -/
def Bucket.remove (H : Keys K) (k : K) (b : Bucket K V) : Bucket K V :=
  match findBeforeEntry H k b.mData with
  | some i => (b.eraseAfter i).countDown
  | none => b

/-- `mapped_for_unprotected`.
SRCLINE: threadsafe_extended_hashmap.h:114-127 -/
def Bucket.mappedFor (H : Keys K) (k : K) (b : Bucket K V) : Option V :=
  (findEntry H k b.mData).bind fun i => b.mData[i]?.map Prod.snd

/-! ## The map -/

/-- SRCLINE: threadsafe_extended_hashmap.h:205-209 -/
abbrev TsExHashmap (K V : Type) : Type := Buckets (Bucket K V)

/-- The constructor.
SRCLINE: threadsafe_extended_hashmap.h:220-225 -/
def TsExHashmap.new (bucketsCount : ℕ) : TsExHashmap K V :=
  ⟨bucketsCount, List.replicate bucketsCount Bucket.new⟩

/-- What a call for one key does in the bucket of the key.
SRCLINE: threadsafe_extended_hashmap.h:251-290 -/
def Bucket.call (H : Keys K) : KeyOp K V → Bucket K V → Res V × Bucket K V
  | .insert k m, b => (.bool (b.insert H k m).1, (b.insert H k m).2)
  | .insertOrAssign k m, b => (.void, b.insertOrAssign H k m)
  | .remove k, b => (.void, b.remove H k)
  | .mappedFor k, b => (.value (b.mappedFor H k), b)

/-- One call for one key.
SRCLINE: threadsafe_extended_hashmap.h:251-290 -/
def TsExHashmap.exec (H : Keys K) (s : TsExHashmap K V) (o : KeyOp K V) :
    Option (Res V × TsExHashmap K V) :=
  s.onBucket H o.key (Bucket.call H o)

/-- SRCLINE: threadsafe_extended_hashmap.h:233-239 -/
def TsExHashmap.size (s : TsExHashmap K V) : ℕ := (s.mBuckets.map Bucket.mSize).sum

/-- SRCLINE: threadsafe_extended_hashmap.h:291-297 -/
def TsExHashmap.loadFactor (s : TsExHashmap K V) : ℚ := (s.size : ℚ) / s.mBucketsCount

/-- What `copy` writes.
SRCLINE: threadsafe_extended_hashmap.h:106-112, 241-249 -/
def TsExHashmap.copy (s : TsExHashmap K V) : List (K × V) :=
  (s.mBuckets.map Bucket.mData).flatten

/-! ## Rehashing -/

/-- The argument of `rehash`. -/
structure LoadFactor where
  val : ℚ
  pos : 0 < val

/-- `ceil(sz/load_factor)`, before it is converted to `size_type`.
SRCLINE: threadsafe_extended_hashmap.h:304 -/
def rehashCount (sz : ℕ) (loadFactor : LoadFactor) : ℕ := ⌈(sz : ℚ) / loadFactor.val⌉₊

/-- `static_cast<size_type>`: the conversion of a number that `size_type` does not represent
is undefined.
SRCLINE: threadsafe_extended_hashmap.h:304 -/
def toSizeType (n : ℕ) : Option ℕ := if n < 2 ^ 64 then some n else none

/-- Moving one node to the front of its new bucket.
SRCLINE: threadsafe_extended_hashmap.h:311-318 -/
def moveNode (H : Keys K) (e : K × V) (tmp : TsExHashmap K V) : Option (TsExHashmap K V) :=
  (tmp.onBucket H e.1 fun b => ((), (b.pushFront e.1 e.2).countUp)).map Prod.snd

/-- Moving all nodes of one bucket.
SRCLINE: threadsafe_extended_hashmap.h:309-319 -/
def moveNodes (H : Keys K) : List (K × V) → TsExHashmap K V → Option (TsExHashmap K V)
  | [], tmp => some tmp
  | e :: oldData, tmp => (moveNode H e tmp).bind (moveNodes H oldData)

/-- Moving the nodes of all buckets.
SRCLINE: threadsafe_extended_hashmap.h:308-320 -/
def moveBuckets (H : Keys K) : List (Bucket K V) → TsExHashmap K V → Option (TsExHashmap K V)
  | [], tmp => some tmp
  | b :: bs, tmp => (moveNodes H b.mData tmp).bind (moveBuckets H bs)

/-- Whether a call has returned or an exception has left it. -/
inductive Exit where
  | returned
  | thrown
  deriving DecidableEq

/-- `rehash`: `tmp` and `sz` are the new `m_buckets` and `m_buckets_count`. If the vector of
the new buckets cannot be allocated, its constructor throws and nothing has changed yet.
SRCLINE: threadsafe_extended_hashmap.h:298-325 -/
def TsExHashmap.rehash (H : Keys K) (s : TsExHashmap K V) (lf : LoadFactor) (allocated : Bool) :
    Option (Exit × TsExHashmap K V) := do
  let sz ← toSizeType (rehashCount s.size lf)
  if allocated then
    let tmp ← moveBuckets H s.mBuckets (TsExHashmap.new sz)
    return (.returned, tmp)
  else
    return (.thrown, s)

/-! ## Sequences of calls -/

/-- A call for one key, or `rehash`, and whether its buckets can be allocated. -/
inductive Cmd (K V : Type) where
  | key (o : KeyOp K V)
  | rehash (lf : LoadFactor) (allocated : Bool)

/-- The calls for one key among them. -/
def keyOps : List (Cmd K V) → List (KeyOp K V)
  | [] => []
  | .key o :: cmds => o :: keyOps cmds
  | .rehash _ _ :: cmds => keyOps cmds

/-- One call after another, with what the calls for one key return. -/
def TsExHashmap.run (H : Keys K) : TsExHashmap K V → List (Cmd K V) →
    Option (List (Res V) × TsExHashmap K V)
  | s, [] => some ([], s)
  | s, .key o :: cmds => do
    let (r, s₁) ← TsExHashmap.exec H s o
    let (rs, s₂) ← TsExHashmap.run H s₁ cmds
    return (r :: rs, s₂)
  | s, .rehash lf allocated :: cmds => do
    let (_, s₁) ← TsExHashmap.rehash H s lf allocated
    TsExHashmap.run H s₁ cmds

/-- Every `rehash` in the sequence finds a map for which `P` holds with its argument. -/
def Rehashes (P : TsExHashmap K V → LoadFactor → Prop) (H : Keys K) :
    TsExHashmap K V → List (Cmd K V) → Prop
  | _, [] => True
  | s, .key o :: cmds => ∀ r s₁, TsExHashmap.exec H s o = some (r, s₁) → Rehashes P H s₁ cmds
  | s, .rehash lf allocated :: cmds => P s lf ∧
    ∀ r s₁, TsExHashmap.rehash H s lf allocated = some (r, s₁) → Rehashes P H s₁ cmds

/-- Every `rehash` in the sequence finds the map nonempty. -/
def RehashesNonempty (H : Keys K) : TsExHashmap K V → List (Cmd K V) → Prop :=
  Rehashes (fun s _ => s.size ≠ 0) H

/-- Every `rehash` in the sequence finds the map nonempty and asks for a number of buckets that
`size_type` represents. -/
def RehashesRepresentable (H : Keys K) : TsExHashmap K V → List (Cmd K V) → Prop :=
  Rehashes (fun s lf => s.size ≠ 0 ∧ rehashCount s.size lf < 2 ^ 64) H

end UbuntuProjects.Hashmap
