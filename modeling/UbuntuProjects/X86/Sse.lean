import Mathlib.Data.UInt
import UbuntuProjects.Memory.CString
import UbuntuProjects.X86.Pcmpstr

/-!
# Instructions on sixteen bytes

`xmm` registers as bytes, byte 0 the lowest, and what the string instructions read of a
string in memory: a window of its bytes, up to its NUL or its length.
-/

set_option autoImplicit false

namespace X86

open Memory

/-- An `xmm` register. -/
abbrev Xmm : Type := Fin 16 → UInt8

def movdqu (m : Mem) (a : ℕ) : Xmm := fun i => m (a + i.val)

/-- One byte is replaced, selected by the low four bits of the immediate. -/
def pinsrb (x : Xmm) (b : UInt8) (imm : ℕ) : Xmm := fun i =>
  if i.val = imm % 16 then b else x i

/-! ## String instructions on bytes -/

def pcmpistri (imm : ℕ) (a b : Xmm) : StringIndex :=
  pcmpstri imm (implicitLength 0 a) (implicitLength 0 b)

/-- The lengths are in `eax` and `edx`. -/
def pcmpestri (imm : ℕ) (eax edx : BitVec 32) (a b : Xmm) : StringIndex :=
  pcmpstri imm (explicitLength eax.toInt a) (explicitLength edx.toInt b)

/-- The outcome of `pcmpistrm`. -/
structure StringMask where
  xmm0 : Xmm
  zf : Bool

/-- Bit 6 of the immediate is set: the mask is made of whole bytes. -/
def pcmpistrm (imm : ℕ) (a b : Xmm) : StringMask :=
  ⟨fun i => if pcmpstr imm (implicitLength 0 a) (implicitLength 0 b) i then 0xFF else 0,
    ended (implicitLength 0 b)⟩

/-! ## Masks -/

/-- Each byte of the mask selects a byte of `a` by its low four bits, or clears the byte. -/
def pshufb (a mask : Xmm) : Xmm := fun i =>
  if 128 ≤ (mask i).toNat then 0 else a (Fin.ofNat 16 (mask i).toNat)

/-- The highest bit of each byte. -/
def pmovmskb (a : Xmm) : BitVec 32 :=
  BitVec.ofNat 32 (Nat.ofBits fun i => decide (128 ≤ (a i).toNat))

/-- The number of bits that are set. -/
def popcnt (x : BitVec 32) : BitVec 32 := x.cpop

/-- INTERNAL: the bits of the mask. -/
theorem getLsbD_pmovmskb (a : Xmm) {i : ℕ} (hi : i < 32) :
    (pmovmskb a).getLsbD i = if h : i < 16 then decide (128 ≤ (a ⟨i, h⟩).toNat) else false := by
  unfold pmovmskb
  rw [BitVec.getLsbD_ofNat, decide_eq_true hi, Bool.true_and, Nat.testBit_ofBits]

/-- INTERNAL: counting bits is counting their indices. -/
theorem cpopNatRec_eq_countP {w : ℕ} (x : BitVec w) (k : ℕ) :
    x.cpopNatRec k 0 = (List.range k).countP x.getLsbD := by
  induction k with
  | zero => rfl
  | succ k ih =>
    rw [BitVec.cpopNatRec_succ, BitVec.cpopNatRec_add, ih, List.range_succ, List.countP_append,
      List.countP_singleton]
    cases x.getLsbD k <;> rfl

/-- The bytes whose highest bit is set are counted. -/
theorem popcnt_pmovmskb {a : Xmm} {P : ℕ → Bool}
    (h : ∀ i : Fin 16, decide (128 ≤ (a i).toNat) = P i) :
    popcnt (pmovmskb a) = BitVec.ofNat 32 ((List.range 16).countP P) := by
  unfold popcnt BitVec.cpop
  rw [cpopNatRec_eq_countP, show List.range 32 = List.range 16 ++ List.range' 16 16 from rfl,
    List.countP_append]
  have hlow : (List.range 16).countP (pmovmskb a).getLsbD = (List.range 16).countP P := by
    apply List.countP_congr
    intro i hi
    have hi16 := List.mem_range.mp hi
    rw [getLsbD_pmovmskb a (by omega), dif_pos hi16, h ⟨i, hi16⟩]
  have hhigh : (List.range' 16 16).countP (pmovmskb a).getLsbD = 0 := by
    apply List.countP_eq_zero.mpr
    intro i hi
    have hi32 := List.mem_range'_1.mp hi
    rw [getLsbD_pmovmskb a (by omega), dif_neg (by omega)]
    exact Bool.false_ne_true
  rw [hlow, hhigh, Nat.add_zero]

/-! ## Strings in memory -/

section Strings

variable {m : Mem} {a p : ℕ} {s : CString}

/-- INTERNAL: a byte of a string in memory. -/
theorem movdqu_read {bs : List UInt8} (h : read m a bs.length = bs) (i : Fin 16)
    (hi : p + i.val < bs.length) : movdqu m (a + p) i = bs[p + i.val] := by
  have hget : (read m a bs.length)[p + i.val]? = bs[p + i.val]? := by rw [h]
  rw [List.getElem?_eq_getElem (by rwa [length_read]), List.getElem?_eq_getElem hi,
    getElem_read] at hget
  unfold movdqu
  rw [Nat.add_assoc]
  exact Option.some.inj hget

/-- A string whose end is its NUL. -/
theorem implicitLength_movdqu (h : HoldsString m a s) (hp : p ≤ s.length) :
    implicitLength 0 (movdqu m (a + p)) = window s.bytes p := by
  apply implicitLength_eq_window s.no_nul hp
  · intro i hi
    exact movdqu_read h.bytes i hi
  · intro i hi
    unfold movdqu
    rw [Nat.add_assoc, hi]
    exact h.nul

/-- A short string in a register that is zero behind it. -/
theorem implicitLength_register {x : Xmm} {bs : List UInt8} (hbs : 0 ∉ bs)
    (hx : ∀ i : Fin 16, x i = bs.getD i.val 0) : implicitLength 0 x = window bs 0 := by
  apply implicitLength_eq_window hbs (Nat.zero_le _)
  · intro i hi
    rw [hx, List.getD_eq_getElem _ _ (by omega)]
    congr 1
    omega
  · intro i hi
    rw [hx, List.getD_eq_default _ _ (by omega)]

/-- Bytes whose number is in a register. -/
theorem explicitLength_movdqu {bs : List UInt8} {len : ℤ} (h : read m a bs.length = bs)
    (hlen : len.natAbs = bs.length - p) :
    explicitLength len (movdqu m (a + p)) = window bs p :=
  explicitLength_eq_window hlen fun i hi => movdqu_read h i hi

end Strings

end X86
