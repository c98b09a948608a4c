import UbuntuProjects.Maps.Buckets
import UbuntuProjects.Model.FiniteMap
import UbuntuProjects.Model.TsExHashmap

/-!
# What the calls do in one bucket

In a bucket with distinct keys every call for one key does to the list what it does to
the finite map, and returns what the finite map returns (`bucketCall_correct`,
`Bucket.call_correct`). The two maps remove an entry in different ways: `remove_if` leaves
out all entries with the key, `find_before_entry` and `erase_after` leave out the first.
-/

set_option autoImplicit false

namespace UbuntuProjects.Hashmap

open Maps (KeyEq)

variable {K V : Type} {H : LawfulKeys K} {k : K} {m : V} {d : List (K × V)}

/-! ## Searching -/

/-- INTERNAL: the loop of `find_before_entry` counts from where it starts. -/
theorem findBefore_eq (H : Keys K) (k : K) (d : List (K × V)) (b : ℕ) :
    findBefore H k d b = (findEntry H k d).map (· + b) := by
  induction d generalizing b with
  | nil => rfl
  | cons e d ih =>
    rw [findBefore, ih, findEntry, findEntry, List.findIdx?_cons]
    split
    · simp
    · rw [Option.map_map]
      congr 1
      funext i
      simp only [Function.comp_apply]
      omega

/-- `find_before_entry` finds the place in front of the entry that `find_entry` finds. -/
theorem findBeforeEntry_eq (H : Keys K) (k : K) (d : List (K × V)) :
    findBeforeEntry H k d = findEntry H k d := by
  rw [findBeforeEntry, findBefore_eq]
  simp

/-- The key has no entry where `find_entry` finds none. -/
theorem findEntry_eq_none : findEntry H.toKeys k d = none ↔ H.keyEq.find k d = none := by
  rw [KeyEq.find_eq_none_iff]
  exact KeyEq.findIdx?_eq_none (E := H.keyEq)

/-- The key has an entry where `find_entry` finds one. -/
theorem find_of_findEntry {i : ℕ} (hi : findEntry H.toKeys k d = some i) :
    H.keyEq.find k d = d[i]?.map Prod.snd ∧ (H.keyEq.find k d).isSome := by
  have hfind : H.keyEq.find k d = d[i]?.map Prod.snd := KeyEq.find_of_findIdx? hi
  have hlt : i < d.length := (List.findIdx?_eq_some_iff_findIdx_eq.mp hi).1
  refine ⟨hfind, ?_⟩
  rw [hfind, List.getElem?_eq_getElem hlt]
  rfl

/-- `mapped_for` returns the value of the key. -/
theorem mappedFor_eq (H : LawfulKeys K) (k : K) (d : List (K × V)) :
    ((findEntry H.toKeys k d).bind fun i => d[i]?.map Prod.snd) = H.keyEq.find k d := by
  cases hi : findEntry H.toKeys k d with
  | none => exact (findEntry_eq_none.mp hi).symm
  | some i => exact (find_of_findEntry hi).1.symm

/-! ## Changing a bucket -/

/-- Pushing an entry for a key that has none, as `insert`. -/
theorem push_eq_insert (hi : findEntry H.toKeys k d = none) (m : V) :
    (k, m) :: d = H.keyEq.insert k m d := by
  simp [KeyEq.insert, findEntry_eq_none.mp hi]

/-- Pushing an entry for a key that has none, as `insert_or_assign`. -/
theorem push_eq_insertOrAssign (hi : findEntry H.toKeys k d = none) (m : V) :
    (k, m) :: d = H.keyEq.insertOrAssign k m d := by
  simp [KeyEq.insertOrAssign, findEntry_eq_none.mp hi]

/-- Writing to the entry that was found. -/
theorem assignAt_eq_assign (hd : H.keyEq.Distinct d) {i : ℕ}
    (hi : findEntry H.toKeys k d = some i) (m : V) :
    assignAt i m d = H.keyEq.assign k m d :=
  KeyEq.modify_of_findIdx? hd hi m

/-- Writing to the entry that was found, as `insert_or_assign`. -/
theorem assignAt_eq_insertOrAssign (hd : H.keyEq.Distinct d) {i : ℕ}
    (hi : findEntry H.toKeys k d = some i) (m : V) :
    assignAt i m d = H.keyEq.insertOrAssign k m d := by
  rw [KeyEq.insertOrAssign, if_pos (find_of_findEntry hi).2, assignAt_eq_assign hd hi]

/-- Leaving out the entry that was found. -/
theorem eraseIdx_eq_erase (hd : H.keyEq.Distinct d) {i : ℕ}
    (hi : findEntry H.toKeys k d = some i) : d.eraseIdx i = H.keyEq.erase k d :=
  KeyEq.eraseIdx_of_findIdx? hd hi

/-- There is nothing to leave out where no entry was found. -/
theorem erase_of_findEntry_none (hi : findEntry H.toKeys k d = none) :
    H.keyEq.erase k d = d :=
  (KeyEq.find_eq_none_iff.mp (findEntry_eq_none.mp hi)).erase

/-- There is nothing to insert where an entry was found. -/
theorem insert_of_findEntry {i : ℕ} (hi : findEntry H.toKeys k d = some i) (m : V) :
    H.keyEq.insert k m d = d := by
  rw [KeyEq.insert, if_pos (find_of_findEntry hi).2]

/-! ## The calls of `ts_hashmap` -/

/-- A call of `ts_hashmap` in a bucket. -/
theorem bucketCall_correct (hd : H.keyEq.Distinct d) (o : KeyOp K V) :
    bucketCall H.toKeys o d =
      (o.result (H.keyEq.find o.key d), o.entries H.keyEq d) := by
  cases o with
  | insert k m =>
    cases hi : findEntry H.toKeys k d with
    | none =>
      simp [bucketCall, bucketInsert, hi, KeyOp.result, KeyOp.key, KeyOp.entries,
        findEntry_eq_none.mp hi, push_eq_insert hi]
    | some i =>
      simp [bucketCall, bucketInsert, hi, KeyOp.result, KeyOp.key, KeyOp.entries,
        Option.isNone_eq_false_iff.mpr (find_of_findEntry hi).2, insert_of_findEntry hi]
  | insertOrAssign k m =>
    cases hi : findEntry H.toKeys k d with
    | none =>
      simp [bucketCall, bucketInsertOrAssign, hi, KeyOp.result, KeyOp.key, KeyOp.entries,
        findEntry_eq_none.mp hi, push_eq_insertOrAssign hi]
    | some i =>
      simp [bucketCall, bucketInsertOrAssign, hi, KeyOp.result, KeyOp.key, KeyOp.entries,
        Option.isNone_eq_false_iff.mpr (find_of_findEntry hi).2,
        assignAt_eq_insertOrAssign hd hi]
  | remove k => rfl
  | mappedFor k =>
    simp [bucketCall, bucketMappedFor, KeyOp.result, KeyOp.key, KeyOp.entries, mappedFor_eq]

/-! ## The calls of `ts_ex_hashmap` -/

/-- A call of `ts_ex_hashmap` in a bucket. -/
theorem Bucket.call_correct {b : Bucket K V} (hd : H.keyEq.Distinct b.mData)
    (o : KeyOp K V) :
    (Bucket.call H.toKeys o b).1 = exResult o (o.result (H.keyEq.find o.key b.mData)) ∧
      (Bucket.call H.toKeys o b).2.mData = o.entries H.keyEq b.mData := by
  cases o with
  | insert k m =>
    cases hi : findEntry H.toKeys k b.mData with
    | none =>
      simp [Bucket.call, Bucket.insert, hi, KeyOp.result, KeyOp.key, KeyOp.entries, exResult,
        findEntry_eq_none.mp hi, ← push_eq_insert hi, Bucket.pushFront, Bucket.countUp]
    | some i =>
      simp [Bucket.call, Bucket.insert, hi, KeyOp.result, KeyOp.key, KeyOp.entries, exResult,
        Option.isNone_eq_false_iff.mpr (find_of_findEntry hi).2, insert_of_findEntry hi]
  | insertOrAssign k m =>
    cases hi : findEntry H.toKeys k b.mData with
    | none =>
      simp [Bucket.call, Bucket.insertOrAssign, hi, KeyOp.entries, exResult,
        ← push_eq_insertOrAssign hi, Bucket.pushFront, Bucket.countUp]
    | some i =>
      simp [Bucket.call, Bucket.insertOrAssign, hi, KeyOp.entries, exResult, Bucket.assign,
        assignAt_eq_insertOrAssign hd hi]
  | remove k =>
    cases hi : findEntry H.toKeys k b.mData with
    | none =>
      simp [Bucket.call, Bucket.remove, findBeforeEntry_eq, hi, KeyOp.result, KeyOp.entries,
        exResult, erase_of_findEntry_none hi]
    | some i =>
      simp [Bucket.call, Bucket.remove, findBeforeEntry_eq, hi, KeyOp.result, KeyOp.entries,
        exResult, Bucket.eraseAfter, Bucket.countDown, eraseIdx_eq_erase hd hi]
  | mappedFor k =>
    simp [Bucket.call, Bucket.mappedFor, KeyOp.result, KeyOp.key, KeyOp.entries, exResult,
      mappedFor_eq]

/-- The counter of a bucket is the number of its entries. -/
def Bucket.Counted (b : Bucket K V) : Prop := b.mSize = b.mData.length

/-- Every call keeps the counter of the bucket. -/
theorem Bucket.call_counted (H : Keys K) {b : Bucket K V} (hb : b.Counted) (o : KeyOp K V) :
    (Bucket.call H o b).2.Counted := by
  cases o with
  | insert k m =>
    show (b.insert H k m).2.Counted
    unfold Bucket.insert
    split
    · simpa [Bucket.Counted, Bucket.pushFront, Bucket.countUp] using hb
    · exact hb
  | insertOrAssign k m =>
    show (b.insertOrAssign H k m).Counted
    unfold Bucket.insertOrAssign
    split
    · simpa [Bucket.Counted, Bucket.assign, assignAt] using hb
    · simpa [Bucket.Counted, Bucket.pushFront, Bucket.countUp] using hb
  | remove k =>
    show (b.remove H k).Counted
    unfold Bucket.remove
    rw [findBeforeEntry_eq]
    split
    · -- an entry was found, so the counter is not zero
      rename_i i hi
      have hlt : i < b.mData.length := (List.findIdx?_eq_some_iff_findIdx_eq.mp hi).1
      unfold Bucket.Counted at hb ⊢
      simp only [Bucket.eraseAfter, Bucket.countDown, List.length_eraseIdx_of_lt hlt, hb]
    · exact hb
  | mappedFor k => exact hb

end UbuntuProjects.Hashmap
