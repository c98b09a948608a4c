import UbuntuProjects.Model.TsQueueNode

/-!
# Which elements survive in a node of `ts_queue`

`m_storage` has one byte, so the element lies over the members behind it: `m_next` at
offset 8 and `initialized` at offset 16. Linking the node deletes what the bytes of the
element from offset 8 on point to and overwrites them (`node_storage`).
-/

set_option autoImplicit false

namespace UbuntuProjects.TsQueue

open Memory

/-- The node at `mTail` yields the element, the link and the flag, and the element is
aligned relative to the node. -/
structure Yields (a mTail : ℕ) (v : List UInt8) (pnewTail : UInt64) (m : Mem) : Prop where
  data : readData v.length a mTail m = v
  next : readNext v.length a mTail m = pnewTail
  initialized : readInitialized v.length a mTail m = true
  aligned : (getDataAddr v.length a mTail - mTail) % a = 0

/-- `emplace` into a new node deletes nothing, and the node yields what was stored. -/
def StorageRoundTrip (a mTail : ℕ) (v : List UInt8) (pnewTail : UInt64) (m : Mem) : Prop :=
  ∃ m', emplaceWrites a mTail v pnewTail (newNode v.length a mTail m) = some m' ∧
    Yields a mTail v pnewTail m'

/-- The element ends inside `m_next`, and its bytes there are zero, as are the bytes of the
new pointer that are written over them. -/
def OverlapAgrees (v : List UInt8) (pnewTail : UInt64) : Prop :=
  v.length ≤ 15 ∧ ∀ i, (h : i < v.length) → 8 ≤ i →
    v[i] = 0 ∧ (littleEndian 8 pnewTail.toNat)[i - 8]? = some 0

section Bytes

variable {a mTail i n : ℕ} {v : List UInt8} {pnewTail : UInt64} {m : Mem}

/-! ## The node before it is linked -/

/-- INTERNAL: in a new node there are zeros behind the element. -/
theorem constructData_next (h : i < 8) :
    constructData a mTail v (newNode v.length a mTail m) (mTail + 8 + i) =
      (v[8 + i]?).getD 0 := by
  rw [constructData, writeInitialized, initializedAddr_eq, getDataAddr_eq,
    write_of_lt_start (by omega)]
  by_cases hlt : 8 + i < v.length
  · rw [Nat.add_assoc, write_of_lt hlt, List.getElem?_eq_getElem hlt, Option.getD_some]
  · rw [write_of_end_le (by omega), List.getElem?_eq_none (by omega), Option.getD_none, newNode,
      writeInitialized, initializedAddr_eq, write_of_lt_start (by omega), writeNext, mNextAddr_eq,
      write_of_lt (by simpa using h)]
    have hzero : ∀ b ∈ List.replicate 8 (0 : UInt8), b = 0 := fun _ => List.eq_of_mem_replicate
    exact hzero _ (List.getElem_mem (l := littleEndian 8 (0 : UInt64).toNat) _)

/-- INTERNAL: a pointer of zero bytes is null. -/
theorem readNext_eq_zero : readNext n a mTail m = 0 ↔ ∀ i, i < 8 → m (mTail + 8 + i) = 0 := by
  have hlt := ofLittleEndian_lt (read m (mTail + 8) 8)
  rw [length_read] at hlt
  have hnat : UInt64.ofNat (ofLittleEndian (read m (mTail + 8) 8)) = 0 ↔
      ofLittleEndian (read m (mTail + 8) 8) = 0 := by
    rw [← UInt64.toNat_inj, UInt64.toNat_ofNat_of_lt' (by simpa using hlt), UInt64.toNat_zero]
  rw [readNext, mNextAddr_eq, hnat, ofLittleEndian_eq_zero]
  simp [Memory.read]

/-- INTERNAL: nothing is deleted exactly if the element has only zeros over `m_next`. -/
theorem readNext_constructData :
    readNext v.length a mTail (constructData a mTail v (newNode v.length a mTail m)) = 0 ↔
      ∀ i, (h : i < v.length) → 8 ≤ i → i < 16 → v[i] = 0 := by
  rw [readNext_eq_zero]
  constructor
  · intro hzero i hi h8 h16
    have hbyte := hzero (i - 8) (by omega)
    rw [constructData_next (by omega), show 8 + (i - 8) = i by omega,
      List.getElem?_eq_getElem hi, Option.getD_some] at hbyte
    exact hbyte
  · intro hv i hi
    rw [constructData_next hi]
    by_cases hlt : 8 + i < v.length
    · rw [List.getElem?_eq_getElem hlt, Option.getD_some]
      exact hv _ hlt (by omega) (by omega)
    · rw [List.getElem?_eq_none (by omega), Option.getD_none]

/-! ## The linked node -/

/-- INTERNAL: the bytes of the link. -/
theorem writeNext_next (h : i < 8) :
    (littleEndian 8 pnewTail.toNat)[i]? = some (writeNext n a mTail pnewTail m (mTail + 8 + i)) := by
  have hlen : i < (littleEndian 8 pnewTail.toNat).length := by simpa using h
  rw [writeNext, mNextAddr_eq, write_of_lt hlen]
  exact List.getElem?_eq_getElem hlen

/-- INTERNAL: the flag. -/
theorem writeNext_initialized :
    writeNext n a mTail pnewTail (constructData a mTail v m) (mTail + 16) = 1 := by
  rw [writeNext, mNextAddr_eq, write_of_end_le (by simp), constructData, writeInitialized,
    initializedAddr_eq]
  exact write_of_lt (i := 0) (by simp)

/-- INTERNAL: the bytes of the element outside the two other members. -/
theorem writeNext_data (h : i < v.length) (hnext : i < 8) :
    writeNext n a mTail pnewTail (constructData a mTail v m) (mTail + i) = v[i] := by
  rw [writeNext, mNextAddr_eq, write_of_lt_start (by omega), constructData, writeInitialized,
    initializedAddr_eq, write_of_lt_start (by omega), getDataAddr_eq, write_of_lt h]

/-- INTERNAL: the link is always read back. -/
theorem readNext_writeNext :
    readNext n a mTail (writeNext n a mTail pnewTail m) = pnewTail := by
  have hread : read (writeNext n a mTail pnewTail m) (mNextAddr n a mTail) 8 =
      littleEndian 8 pnewTail.toNat := by
    refine List.ext_getElem (by simp) fun i h₁ h₂ => ?_
    have hbyte : (littleEndian 8 pnewTail.toNat)[i]? =
        some (writeNext n a mTail pnewTail m (mTail + 8 + i)) :=
      writeNext_next (by simpa using h₂)
    rw [List.getElem?_eq_getElem h₂] at hbyte
    rw [getElem_read, mNextAddr_eq]
    exact (Option.some.inj hbyte).symm
  rw [readNext, hread, ofLittleEndian_littleEndian]
  have hlt : pnewTail.toNat % 256 ^ 8 = pnewTail.toNat := Nat.mod_eq_of_lt pnewTail.toNat_lt
  rw [hlt, UInt64.ofNat_toNat]

/-- INTERNAL: what is read back of the element is what was not overwritten. -/
theorem readData_writeNext (hlen : v.length ≤ 16) :
    readData v.length a mTail
        (writeNext v.length a mTail pnewTail (constructData a mTail v m)) = v ↔
      ∀ i, (h : i < v.length) → 8 ≤ i → (littleEndian 8 pnewTail.toNat)[i - 8]? = some v[i] := by
  rw [readData, getDataAddr_eq]
  constructor
  · intro hEq i hi h8
    have hget := List.getElem_of_eq hEq (i := i) (by simpa using hi)
    rw [getElem_read, show mTail + i = mTail + 8 + (i - 8) by omega] at hget
    rw [← hget]
    exact writeNext_next (by omega)
  · intro hv
    refine List.ext_getElem (by simp) fun i h₁ h₂ => ?_
    rw [getElem_read]
    by_cases h8 : i < 8
    · exact writeNext_data h₂ h8
    · rw [show mTail + i = mTail + 8 + (i - 8) by omega]
      exact Option.some.inj ((writeNext_next (by omega)).symm.trans (hv i h₂ (by omega)))

end Bytes

/-! ## Elements -/

/-- A pointer whose bytes are all zero is null. -/
theorem eq_zero_of_littleEndian {p : UInt64}
    (h : ∀ i, i < 8 → (littleEndian 8 p.toNat)[i]? = some 0) : p = 0 := by
  have hzero : ofLittleEndian (littleEndian 8 p.toNat) = 0 := by
    rw [ofLittleEndian_eq_zero]
    intro b hb
    obtain ⟨i, hi, rfl⟩ := List.getElem_of_mem hb
    have hbyte := h i (by simpa using hi)
    rw [List.getElem?_eq_getElem hi] at hbyte
    exact Option.some.inj hbyte
  have hlt : p.toNat % 256 ^ 8 = p.toNat := Nat.mod_eq_of_lt p.toNat_lt
  rw [ofLittleEndian_littleEndian, hlt] at hzero
  rw [← UInt64.toNat_inj, hzero, UInt64.toNat_zero]

/-- INTERNAL: an element that reaches the end of `m_next` either makes it a pointer to
delete or has its own zeros overwritten by the new pointer. -/
theorem length_le_of_agrees {v : List UInt8} {pnewTail : UInt64} (hne : pnewTail ≠ 0)
    (hzero : ∀ i, (h : i < v.length) → 8 ≤ i → i < 16 → v[i] = 0)
    (hread : ∀ i, i < 16 → (h : i < v.length) → 8 ≤ i →
      (littleEndian 8 pnewTail.toNat)[i - 8]? = some v[i]) : v.length ≤ 15 := by
  by_contra hlt
  refine hne (eq_zero_of_littleEndian fun i hi => ?_)
  have hbyte := hread (i + 8) (by omega) (by omega) (by omega)
  rwa [Nat.add_sub_cancel, hzero (i + 8) (by omega) (by omega) (by omega)] at hbyte

/-- INTERNAL: only the bytes of the element are at risk. -/
theorem storageRoundTrip_iff {a mTail : ℕ} {v : List UInt8} {pnewTail : UInt64} {m : Mem}
    (hne : pnewTail ≠ 0) :
    StorageRoundTrip a mTail v pnewTail m ↔ OverlapAgrees v pnewTail := by
  have hlink : ∀ m', emplaceWrites a mTail v pnewTail (newNode v.length a mTail m) = some m' ↔
      (∀ i, (h : i < v.length) → 8 ≤ i → i < 16 → v[i] = 0) ∧
        writeNext v.length a mTail pnewTail
          (constructData a mTail v (newNode v.length a mTail m)) = m' := by
    intro m'
    rw [emplaceWrites, linkNext, Option.ite_none_right_eq_some, readNext_constructData,
      Option.some.injEq]
  constructor
  · rintro ⟨m', hm, hdata, -, -, -⟩
    obtain ⟨hzero, rfl⟩ := (hlink m').mp hm
    have hread : ∀ i, i < 16 → (h : i < v.length) → 8 ≤ i →
        (littleEndian 8 pnewTail.toNat)[i - 8]? = some v[i] := by
      intro i h16 hi h8
      have hget := List.getElem_of_eq hdata (i := i) (by simpa [readData] using hi)
      simp only [readData, getDataAddr_eq] at hget
      rw [getElem_read, show mTail + i = mTail + 8 + (i - 8) by omega] at hget
      rw [← hget]
      exact writeNext_next (by omega)
    have hlen := length_le_of_agrees hne hzero hread
    refine ⟨hlen, fun i hi h8 => ?_⟩
    have hv := hzero i hi h8 (by omega)
    exact ⟨hv, hv ▸ hread i (by omega) hi h8⟩
  · rintro ⟨hlen, hv⟩
    refine ⟨_, (hlink _).mpr ⟨fun i hi h8 _ => (hv i hi h8).1, rfl⟩, ?_, readNext_writeNext, ?_, ?_⟩
    · rw [readData_writeNext (by omega)]
      intro i hi h8
      rw [(hv i hi h8).1]
      exact (hv i hi h8).2
    · rw [readInitialized, initializedAddr_eq, writeNext_initialized]
      rfl
    · simp [getDataAddr_eq]

/-- An element of at most 8 bytes does not reach the link. -/
theorem overlapAgrees_of_le {v : List UInt8} (h : v.length ≤ 8) (pnewTail : UInt64) :
    OverlapAgrees v pnewTail :=
  ⟨by omega, fun i hi h8 => by omega⟩

/-- The node stores an element exactly when the element ends inside `m_next` and has only
zeros there, which the new pointer overwrites with zeros; so it stores all elements of a type
of size `n` exactly when `n` is at most 8. The alignment plays no role. -/
theorem node_storage (a : ℕ) :
    (∀ (mTail : ℕ) (v : List UInt8) (pnewTail : UInt64) (m : Mem), pnewTail ≠ 0 →
      (StorageRoundTrip a mTail v pnewTail m ↔ OverlapAgrees v pnewTail)) ∧
    ∀ n, (∀ (mTail : ℕ) (v : List UInt8) (pnewTail : UInt64) (m : Mem), pnewTail ≠ 0 →
      v.length = n → StorageRoundTrip a mTail v pnewTail m) ↔ n ≤ 8 := by
  refine ⟨fun mTail v pnewTail m => storageRoundTrip_iff, fun n => ⟨fun hall => ?_, fun hn => ?_⟩⟩
  · -- the byte at offset 8 of this element makes a pointer that is deleted
    by_contra hgt
    have hone : (1 : UInt64) ≠ 0 := by decide
    obtain ⟨-, hv⟩ := (storageRoundTrip_iff hone).mp
      (hall 0 (List.replicate n 1) 1 (fun _ => 0) hone (by simp))
    have hbyte := (hv 8 (by simp; omega) (by omega)).1
    simp at hbyte
  · rintro mTail v pnewTail m hne rfl
    exact (storageRoundTrip_iff hne).mpr (overlapAgrees_of_le hn pnewTail)

/-- An element of nine bytes, the last one zero, and a new node at a multiple of 256. -/
theorem node_storage_nine :
    StorageRoundTrip 8 64 [1, 2, 3, 4, 5, 6, 7, 8, 0] 4096 (fun _ => 255) :=
  ((node_storage 8).1 64 [1, 2, 3, 4, 5, 6, 7, 8, 0] 4096 (fun _ => 255) (by decide)).mpr
    ⟨by decide, fun i hi h8 => by
      obtain rfl : i = 8 := by simp at hi; omega
      exact ⟨rfl, rfl⟩⟩

/-- An element of 16 zero bytes: reading it back yields the bytes of the link. -/
theorem node_storage_sixteen :
    ¬StorageRoundTrip 8 0 (List.replicate 16 0) 4096 (fun _ => 0) := by
  intro h
  have hlen := ((storageRoundTrip_iff (by decide)).mp h).1
  simp at hlen

end UbuntuProjects.TsQueue
