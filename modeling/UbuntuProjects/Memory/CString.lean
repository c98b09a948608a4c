import Mathlib.Data.List.TakeWhile
import UbuntuProjects.Memory.Bytes

/-!
# Strings of C

A string of C is a list of bytes without NUL (`CString`); in memory it is followed by a
NUL. `strlen` looks for the NUL within the given number of bytes. The writers of a string
(`snprintf`, `strcat`) work on a memory that keeps the addresses written so far, inside
the caller's array or not (`Tracked`).
-/

set_option autoImplicit false

namespace Memory

/-- A string of C, without its terminating NUL. -/
@[ext]
structure CString where
  bytes : List UInt8
  no_nul : 0 ∉ bytes

namespace CString

/-- What a reader of the bytes `bs` takes for the string: all in front of the first NUL. -/
def ofBytes (bs : List UInt8) : CString where
  bytes := bs.takeWhile (· ≠ 0)
  no_nul := fun h => by simpa using List.mem_takeWhile_imp h

def length (s : CString) : ℕ := s.bytes.length

def append (s t : CString) : CString where
  bytes := s.bytes ++ t.bytes
  no_nul := fun h => (List.mem_append.mp h).elim s.no_nul t.no_nul

@[simp] theorem length_append (s t : CString) : (s.append t).length = s.length + t.length :=
  List.length_append

/-- The first `n` bytes of a string. -/
def take (s : CString) (n : ℕ) : CString where
  bytes := s.bytes.take n
  no_nul := fun h => s.no_nul (List.mem_of_mem_take h)

@[simp] theorem length_take (s : CString) (n : ℕ) : (s.take n).length = min n s.length :=
  List.length_take

/-- INTERNAL: cutting behind a string. -/
theorem append_take (s t : CString) (n : ℕ) (h : s.length ≤ n) :
    s.append (t.take (n - s.length)) = (s.append t).take n := by
  ext1
  show s.bytes ++ t.bytes.take (n - s.bytes.length) = (s.bytes ++ t.bytes).take n
  rw [List.take_append, List.take_of_length_le h]

/-- INTERNAL: cutting the front part first changes nothing. -/
theorem take_append_take (s t : CString) (n : ℕ) :
    ((s.take n).append t).take n = (s.append t).take n := by
  ext1
  show (s.bytes.take n ++ t.bytes).take n = (s.bytes ++ t.bytes).take n
  rw [List.take_append, List.take_append, List.take_take, Nat.min_self, List.length_take]
  congr 2
  omega

/-- INTERNAL: the string in the first `n` bytes is the string cut to `n` bytes. -/
theorem ofBytes_take (bs : List UInt8) (n : ℕ) : ofBytes (bs.take n) = (ofBytes bs).take n := by
  ext1
  show (bs.take n).takeWhile _ = (bs.takeWhile _).take n
  induction bs generalizing n with
  | nil => simp
  | cons b bs ih =>
    cases n with
    | zero => simp
    | succ n =>
      rw [List.take_succ_cons]
      by_cases hb : b = 0
      · simp [hb]
      · have hih := ih n
        simpa [hb] using hih

/-- INTERNAL: a string in front is read whole. -/
theorem ofBytes_append (s : CString) (bs : List UInt8) :
    ofBytes (s.bytes ++ bs) = s.append (ofBytes bs) := by
  have hs : ∀ b ∈ s.bytes, decide (b ≠ 0) = true := by
    intro b hb
    have hne : b ≠ 0 := fun h0 => s.no_nul (h0 ▸ hb)
    simpa using hne
  unfold ofBytes append
  congr 1
  exact List.takeWhile_append_of_pos hs

/-- INTERNAL: behind the string in terminated bytes there is a NUL. -/
theorem getElem?_length_ofBytes (bs : List UInt8) :
    (bs ++ [0])[(ofBytes bs).length]? = some 0 := by
  unfold length ofBytes
  induction bs with
  | nil => rfl
  | cons b bs ih =>
    by_cases hb : b = 0
    · simp [hb]
    · simpa [hb] using ih

/-- INTERNAL: bytes without NUL are read whole. -/
theorem ofBytes_bytes (s : CString) : ofBytes s.bytes = s := by
  have h := s.ofBytes_append []
  rw [List.append_nil] at h
  rw [h]
  unfold append ofBytes
  simp

end CString

/-- The distance from `a` to the first NUL among the next `n` bytes. -/
def strlen (m : Mem) (a n : ℕ) : Option ℕ := (List.range n).find? fun i => m (a + i) == 0

/-- A memory and the addresses written so far. -/
structure Tracked where
  mem : Mem
  written : List ℕ

/-- Writing the bytes `bs` from address `a` on. -/
def Tracked.store (t : Tracked) (a : ℕ) (bs : List UInt8) : Tracked where
  mem := write t.mem a bs
  written := t.written ++ List.range' a bs.length

section StoreByte

variable {t : Tracked} {a x : ℕ} {b : UInt8}

/-- The byte that was stored. -/
theorem Tracked.store_byte_self : (t.store a [b]).mem a = b := by
  have hlt : 0 < [b].length := Nat.one_pos
  exact write_of_lt hlt

/-- The bytes next to it. -/
theorem Tracked.store_byte_of_ne (h : x ≠ a) : (t.store a [b]).mem x = t.mem x := by
  rcases Nat.lt_or_gt_of_ne h with hlt | hgt
  · exact write_of_lt_start hlt
  · exact write_of_end_le hgt

theorem Tracked.mem_written_store_byte :
    x ∈ (t.store a [b]).written ↔ x ∈ t.written ∨ x = a := by
  unfold Tracked.store
  rw [List.mem_append, List.length_singleton, List.range'_one, List.mem_singleton]

end StoreByte

/-- `snprintf` and `vsnprintf`: at most `size` bytes of the formatted text, the last one
written a NUL. -/
def snprintf (t : Tracked) (a size : ℕ) (text : List UInt8) : Tracked :=
  if size = 0 then t else t.store a (text.take (size - 1) ++ [0])

/-- `strcat` to the string at `a`, whose NUL is looked for in `n` bytes: no bound on what
is written. -/
def strcat (t : Tracked) (a n : ℕ) (s : CString) : Option Tracked := do
  let len ← strlen t.mem a n
  return t.store (a + len) (s.bytes ++ [0])

/-! ## The string at an address -/

/-- The string at address `a`. -/
structure HoldsString (m : Mem) (a : ℕ) (s : CString) : Prop where
  bytes : read m a s.length = s.bytes
  nul : m (a + s.length) = 0

section Strings

variable {m : Mem} {a n k : ℕ} {s : CString} {bs : List UInt8}

/-- INTERNAL: reading across the first byte of what was written. -/
theorem read_write (hk : k ≤ bs.length) :
    read (write m (a + n) bs) a (n + k) = read m a n ++ bs.take k := by
  apply List.ext_getElem
  · simp [hk]
  · intro i hi _
    rw [length_read] at hi
    rw [getElem_read]
    by_cases hin : i < n
    · rw [write_of_lt_start (Nat.add_lt_add_left hin a), List.getElem_append_left (by simpa),
        getElem_read]
    · obtain ⟨j, rfl⟩ := Nat.exists_eq_add_of_le (Nat.le_of_not_lt hin)
      have hj : j < bs.length := by omega
      rw [← Nat.add_assoc, write_of_lt hj, List.getElem_append_right (by simp)]
      simp

/-- `strlen` finds the NUL behind the string, if it looks that far. -/
theorem HoldsString.strlen_eq (h : HoldsString m a s) :
    strlen m a n = if s.length < n then some s.length else none := by
  have hne : ∀ i, i < s.length → (m (a + i) == 0) = false := by
    intro i hi
    have hmem : m (a + i) ∈ s.bytes := by
      rw [← h.bytes]
      exact List.mem_map.mpr ⟨i, List.mem_range.mpr hi, rfl⟩
    have hb : m (a + i) ≠ 0 := fun h0 => s.no_nul (h0 ▸ hmem)
    simpa using hb
  unfold strlen
  split
  · rename_i hlt
    rw [List.find?_range_eq_some]
    refine ⟨by simpa using h.nul, List.mem_range.mpr hlt, ?_⟩
    intro j hj
    simp [hne j hj]
  · rename_i hlt
    rw [List.find?_eq_none]
    intro i hi
    have hi' : i < s.length := by
      have := List.mem_range.mp hi
      omega
    simp [hne i hi']

/-- INTERNAL: terminated bytes written over the NUL of a string continue it. -/
theorem holdsString_write (bs : List UInt8) (hs : read m a s.length = s.bytes) :
    HoldsString (write m (a + s.length) (bs ++ [0])) a (s.append (CString.ofBytes bs)) := by
  have hprefix : (CString.ofBytes bs).bytes <+: bs ++ [0] :=
    (List.takeWhile_prefix _).trans (List.prefix_append bs [0])
  have hlen : (CString.ofBytes bs).length ≤ (bs ++ [0]).length := hprefix.length_le
  constructor
  · rw [CString.length_append, read_write hlen, hs]
    show s.bytes ++ _ = s.bytes ++ _
    rw [List.append_cancel_left_eq]
    exact (List.prefix_iff_eq_take.mp hprefix).symm
  · obtain ⟨hlt, h0⟩ := List.getElem?_eq_some_iff.mp (CString.getElem?_length_ofBytes bs)
    rw [CString.length_append, ← Nat.add_assoc, write_of_lt hlt]
    exact h0

end Strings

end Memory
