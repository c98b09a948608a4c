import UbuntuProjects.Maps.AssocMap

/-!
# `ts_hashmap`: a hash map with a mutex in each bucket

The model of `ts_adv::ts_hashmap` (threadsafe_hashmap.h), one call after another. The
table (`Buckets`), the choice of the bucket (`Buckets.bucketFor`) and the linear search
in a bucket (`findEntry`) are written in the same words in threadsafe_extended_hashmap.h,
so `ts_ex_hashmap` uses these definitions as well.

The list of a bucket has its front first. Division by zero and an index out of range give
`none`: there the source has no behaviour.
-/

set_option autoImplicit false

namespace UbuntuProjects.Hashmap

variable {K V β α : Type}

/-! ## Template arguments -/

/-- The template arguments `Hash` and `Key_eq`.
SRCLINE: threadsafe_hashmap.h:11-12, 21-22 -/
structure Keys (K : Type) where
  hasher : K → ℕ
  keyEqual : K → K → Bool

/-- Template arguments as a hash map may expect them: an equivalence, and equal keys have
equal hashes. -/
structure LawfulKeys (K : Type) extends Keys K where
  refl : ∀ a, keyEqual a a
  symm : ∀ {a b}, keyEqual a b → keyEqual b a
  trans : ∀ {a b c}, keyEqual a b → keyEqual b c → keyEqual a c
  hash_eq : ∀ a b, keyEqual a b → hasher a = hasher b

/-- The equality of keys. -/
def LawfulKeys.keyEq (H : LawfulKeys K) : Maps.KeyEq K := ⟨H.keyEqual, H.refl, H.symm, H.trans⟩

/-- Numbers as keys, which are their own hashes. -/
def natKeys : LawfulKeys ℕ where
  hasher k := k
  keyEqual a b := a == b
  refl := by simp
  symm h := by
    rw [beq_iff_eq] at h ⊢
    exact h.symm
  trans h₁ h₂ := by
    rw [beq_iff_eq] at h₁ h₂ ⊢
    exact h₁.trans h₂
  hash_eq a b h := by simpa using h

/-! ## The table -/

/-- `m_buckets_count` and `m_buckets`.
SRCLINE: threadsafe_hashmap.h:146-147 -/
structure Buckets (β : Type) where
  mBucketsCount : ℕ
  mBuckets : List β

/-- The index in `m_buckets[m_hasher(key)%m_buckets_count]`.
SRCLINE: threadsafe_hashmap.h:150-155 -/
def Buckets.bucketFor (H : Keys K) (s : Buckets β) (key : K) : Option ℕ :=
  if s.mBucketsCount = 0 then none
  else if H.hasher key % s.mBucketsCount < s.mBuckets.length then
    some (H.hasher key % s.mBucketsCount)
  else none

/-- Calling a member function `f` of the bucket of a key. -/
def Buckets.onBucket (H : Keys K) (s : Buckets β) (key : K) (f : β → α × β) :
    Option (α × Buckets β) := do
  let i ← s.bucketFor H key
  let b ← s.mBuckets[i]?
  return ((f b).1, { s with mBuckets := s.mBuckets.set i (f b).2 })

/-! ## One bucket -/

/-- The position of the first entry with the key, or the end.
SRCLINE: threadsafe_hashmap.h:45-59 -/
def findEntry (H : Keys K) (k : K) (mData : List (K × V)) : Option ℕ :=
  mData.findIdx? fun v => H.keyEqual v.1 k

/-- `it->second=m`.
SRCLINE: threadsafe_hashmap.h:95, 108 -/
def assignAt (i : ℕ) (m : V) (mData : List (K × V)) : List (K × V) :=
  mData.modify i fun e => (e.1, m)

/-- `bucket_type::mapped_for`.
SRCLINE: threadsafe_hashmap.h:81-88 -/
def bucketMappedFor (H : Keys K) (k : K) (mData : List (K × V)) : Option V :=
  (findEntry H k mData).bind fun i => mData[i]?.map Prod.snd

/-- `bucket_type::insert_or_assign`.
SRCLINE: threadsafe_hashmap.h:90-114 -/
def bucketInsertOrAssign (H : Keys K) (k : K) (m : V) (mData : List (K × V)) :
    Bool × List (K × V) :=
  match findEntry H k mData with
  | some i => (false, assignAt i m mData)
  | none => (true, (k, m) :: mData)

/-- `bucket_type::insert`.
SRCLINE: threadsafe_hashmap.h:115-136 -/
def bucketInsert (H : Keys K) (k : K) (m : V) (mData : List (K × V)) : Bool × List (K × V) :=
  match findEntry H k mData with
  | none => (true, (k, m) :: mData)
  | some _ => (false, mData)

/-- `bucket_type::remove`, with `remove_if`.
SRCLINE: threadsafe_hashmap.h:138-143 -/
def bucketRemove (H : Keys K) (k : K) (mData : List (K × V)) : List (K × V) :=
  mData.filter fun val => !H.keyEqual val.1 k

/-! ## The map -/

/-- The calls for one key. -/
inductive KeyOp (K V : Type) where
  | insert (k : K) (m : V)
  | insertOrAssign (k : K) (m : V)
  | remove (k : K)
  | mappedFor (k : K)

/-- The key of a call. -/
def KeyOp.key : KeyOp K V → K
  | .insert k _ | .insertOrAssign k _ | .remove k | .mappedFor k => k

/-- What a call for one key returns. -/
inductive Res (V : Type) where
  | void
  | bool (b : Bool)
  | value (m : Option V)
  deriving DecidableEq

/-- SRCLINE: threadsafe_hashmap.h:35, 43, 146-148 -/
abbrev TsHashmap (K V : Type) : Type := Buckets (List (K × V))

/-- The constructor.
SRCLINE: threadsafe_hashmap.h:157-160 -/
def TsHashmap.new (bucketsCount : ℕ) : TsHashmap K V :=
  ⟨bucketsCount, List.replicate bucketsCount []⟩

/-- What a call does in the bucket of its key.
SRCLINE: threadsafe_hashmap.h:175-207 -/
def bucketCall (H : Keys K) : KeyOp K V → List (K × V) → Res V × List (K × V)
  | .insert k m, d => (.bool (bucketInsert H k m d).1, (bucketInsert H k m d).2)
  | .insertOrAssign k m, d =>
    (.bool (bucketInsertOrAssign H k m d).1, (bucketInsertOrAssign H k m d).2)
  | .remove k, d => (.void, bucketRemove H k d)
  | .mappedFor k, d => (.value (bucketMappedFor H k d), d)

/-- One call for one key.
SRCLINE: threadsafe_hashmap.h:175-207 -/
def TsHashmap.exec (H : Keys K) (s : TsHashmap K V) (o : KeyOp K V) :
    Option (Res V × TsHashmap K V) :=
  s.onBucket H o.key (bucketCall H o)

/-- What `copy` writes.
SRCLINE: threadsafe_hashmap.h:74-79, 166-172 -/
def TsHashmap.copy (s : TsHashmap K V) : List (K × V) := s.mBuckets.flatten

/-- One call after another, with what they return. -/
def TsHashmap.run (H : Keys K) : TsHashmap K V → List (KeyOp K V) →
    Option (List (Res V) × TsHashmap K V)
  | s, [] => some ([], s)
  | s, o :: ops => do
    let (r, s₁) ← TsHashmap.exec H s o
    let (rs, s₂) ← TsHashmap.run H s₁ ops
    return (r :: rs, s₂)

end UbuntuProjects.Hashmap
