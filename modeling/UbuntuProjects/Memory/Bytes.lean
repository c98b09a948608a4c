import Mathlib.Data.Nat.Notation
import Mathlib.Tactic.Ring

/-!
# Byte memory and the layout of objects

Memory is a function from addresses to bytes; objects are written and read as lists of
bytes. Integers and pointers are stored with their low byte first (`littleEndian`). The
members of a class are laid out in declaration order, each at the next multiple of its
alignment (`offsets`).
-/

set_option autoImplicit false

namespace Memory

/-- The byte at each address. -/
abbrev Mem : Type := ℕ → UInt8

/-- Writing the bytes `bs` from address `a` on. -/
def write (m : Mem) (a : ℕ) (bs : List UInt8) : Mem := fun x =>
  if h : a ≤ x ∧ x - a < bs.length then bs[x - a] else m x

/-- Reading `n` bytes from address `a` on. -/
def read (m : Mem) (a n : ℕ) : List UInt8 :=
  (List.range n).map fun i => m (a + i)

section ReadWrite

variable {m : Mem} {a b n i : ℕ} {bs cs : List UInt8}

@[simp] theorem length_read : (read m a n).length = n := by
  simp [read]

theorem getElem_read (h : i < (read m a n).length) : (read m a n)[i] = m (a + i) := by
  simp [read]

/-- Memories that are the same where they are read. -/
theorem read_congr {m' : Mem} (h : ∀ i, i < n → m (a + i) = m' (a + i)) :
    read m a n = read m' a n :=
  List.map_congr_left fun i hi => h i (List.mem_range.mp hi)

/-- A byte that was written. -/
theorem write_of_lt (h : i < bs.length) : write m a bs (a + i) = bs[i] := by
  simp [write, h]

/-- A byte in front of what was written. -/
theorem write_of_lt_start (h : b < a) : write m a bs b = m b := by
  have hb : ¬a ≤ b := Nat.not_le.mpr h
  simp [write, hb]

/-- A byte behind what was written. -/
theorem write_of_end_le (h : a + bs.length ≤ b) : write m a bs b = m b := by
  have hb : ¬b - a < bs.length := by omega
  simp [write, hb]

/-- What becomes of the object with the bytes `old` at address `b` when the object with the
bytes `new` is written at address `a`. -/
def overwritten (b : ℕ) (old : List UInt8) (a : ℕ) (new : List UInt8) : List UInt8 :=
  read (write (write (fun _ => 0) b old) a new) b old.length

theorem read_write_overwritten (m : Mem) (a b n : ℕ) (bs : List UInt8) :
    read (write m a bs) b n = overwritten b (read m b n) a bs := by
  rw [overwritten, length_read]
  refine read_congr fun i hi => ?_
  by_cases h : a ≤ b + i ∧ b + i - a < bs.length
  · simp only [write, h, and_self, dite_true]
  · have hi' : i < (read m b n).length := by rwa [length_read]
    simp only [write, h, dite_false, Nat.le_add_right, Nat.add_sub_cancel_left, hi', and_self,
      dite_true, getElem_read]

/-- Objects that do not overlap. -/
theorem overwritten_of_disjoint (h : a + bs.length ≤ b ∨ b + cs.length ≤ a) :
    overwritten b cs a bs = cs := by
  refine List.ext_getElem (by simp [overwritten]) fun i h₁ h₂ => ?_
  have hbyte : write (write (fun _ => 0) b cs) a bs (b + i) = cs[i] := by
    rcases h with hle | hle
    · rw [write_of_end_le (by omega), write_of_lt h₂]
    · rw [write_of_lt_start (by omega), write_of_lt h₂]
  simp only [overwritten]
  rw [getElem_read]
  exact hbyte

/-- An object of the same size at the same address. -/
theorem overwritten_self (h : bs.length = cs.length) : overwritten b cs b bs = bs := by
  refine List.ext_getElem (by simp [overwritten, h]) fun i h₁ h₂ => ?_
  simp only [overwritten]
  rw [getElem_read, write_of_lt h₂]

end ReadWrite

/-! ## Integers -/

/-- The `k` low bytes of `n`, the lowest first. -/
def littleEndian : ℕ → ℕ → List UInt8
  | 0, _ => []
  | k + 1, n => UInt8.ofNat n :: littleEndian k (n / 256)

/-- The number with these bytes. -/
def ofLittleEndian : List UInt8 → ℕ
  | [] => 0
  | b :: bs => b.toNat + 256 * ofLittleEndian bs

@[simp] theorem length_littleEndian (k n : ℕ) : (littleEndian k n).length = k := by
  induction k generalizing n with
  | zero => rfl
  | succ k ih => simp [littleEndian, ih]

/-- Reading back the `k` low bytes gives the number modulo `256 ^ k`. -/
theorem ofLittleEndian_littleEndian (k n : ℕ) :
    ofLittleEndian (littleEndian k n) = n % 256 ^ k := by
  induction k generalizing n with
  | zero => simp [littleEndian, ofLittleEndian, Nat.mod_one]
  | succ k ih =>
    have hbyte : (UInt8.ofNat n).toNat = n % 256 := by simp
    rw [littleEndian, ofLittleEndian, ih, hbyte, pow_succ', Nat.mod_mul]

/-- Only zero bytes make the number 0. -/
theorem ofLittleEndian_eq_zero {bs : List UInt8} : ofLittleEndian bs = 0 ↔ ∀ b ∈ bs, b = 0 := by
  induction bs with
  | nil => simp [ofLittleEndian]
  | cons b bs ih =>
    have hb : b.toNat = 0 ↔ b = 0 := by rw [← UInt8.toNat_inj, UInt8.toNat_zero]
    simp [ofLittleEndian, ih, hb]

theorem ofLittleEndian_lt (bs : List UInt8) : ofLittleEndian bs < 256 ^ bs.length := by
  induction bs with
  | nil => simp [ofLittleEndian]
  | cons b bs ih =>
    have hb : b.toNat < 256 := b.toNat_lt
    rw [ofLittleEndian, List.length_cons, pow_succ']
    omega

/-! ## Layout -/

/-- The size and the alignment of a member. -/
structure Member where
  size : ℕ
  align : ℕ

/-- The next multiple of `align`. -/
def alignUp (off align : ℕ) : ℕ :=
  (off + align - 1) / align * align

/-- The offsets of members laid out in declaration order from `off` on. -/
def offsets (off : ℕ) : List Member → List ℕ
  | [] => []
  | x :: xs => alignUp off x.align :: offsets (alignUp off x.align + x.size) xs

/-! ## Objects -/

/-- The types whose values are stored as bytes: every value has bytes from which it is read
back. Other bytes of the size need not make up a value. -/
class Storable (T : Type) where
  size : ℕ
  align : ℕ
  bytes : T → List UInt8
  ofBytes : List UInt8 → Option T
  length_bytes : ∀ v, (bytes v).length = size
  ofBytes_bytes : ∀ v, ofBytes (bytes v) = some v

theorem UInt64.ofNat_littleEndian (v : UInt64) :
    UInt64.ofNat (ofLittleEndian (littleEndian 8 v.toNat)) = v := by
  have hlt : v.toNat % 256 ^ 8 = v.toNat := Nat.mod_eq_of_lt v.toNat_lt
  rw [ofLittleEndian_littleEndian, hlt, UInt64.ofNat_toNat]

/-- A 64-bit integer. -/
instance : Storable UInt64 where
  size := 8
  align := 8
  bytes v := littleEndian 8 v.toNat
  ofBytes bs := some (UInt64.ofNat (ofLittleEndian bs))
  length_bytes v := length_littleEndian 8 _
  ofBytes_bytes v := by rw [UInt64.ofNat_littleEndian]

end Memory
