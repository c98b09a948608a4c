import Mathlib.Algebra.Field.Defs
import Mathlib.Data.Fin.VecNotation
import Mathlib.Data.Nat.Bitwise

/-!
# Instructions on four double precision lanes

Registers of 256 bits as four lanes, lane 0 the lowest, over a field in place of the floating
point numbers. An instruction is a function of the values of its source operands; where the
destination register keeps lanes, its old value is the first argument.

Scalar instructions work on lane 0. The legacy encodings leave the other lanes of the
destination alone; the VEX encodings clear lanes 2 and 3.
-/

set_option autoImplicit false

namespace X86

/-- A `ymm` register; an `xmm` register is its two low lanes. -/
abbrev Ymm (K : Type) : Type := Fin 4 → K

/-- Lanes are written as numerals. -/
scoped instance neZero_lanes : NeZero 4 := ⟨by decide⟩

variable {K : Type}

/-! ## Moving lanes -/

section Moves

variable (x : K) (dst a b : Ymm K) (mask imm : ℕ) (i : Fin 4)

def vbroadcastsd : Ymm K := fun _ => x

/-- Lane `i` comes from the second source where bit `i` of the mask is set. -/
def vblendpd : Ymm K := fun i => if mask.testBit i then b i else a i

/-- Lane `i` is the one that bits `2i` and `2i+1` of the immediate select. -/
def vpermpd : Ymm K := fun i => a (Fin.ofNat 4 (imm >>> (2 * i.val)))

/-- Register to register: the other lanes stay. -/
def movsd : Ymm K := ![a 0, dst 1, dst 2, dst 3]

@[simp] theorem vbroadcastsd_apply : vbroadcastsd x i = x := rfl

@[simp] theorem movsd_zero : movsd dst a 0 = a 0 := rfl

end Moves

variable [Field K]

/-! ## Packed arithmetic -/

section Packed

variable (dst a b : Ymm K) (i : Fin 4)

def vaddpd : Ymm K := fun i => a i + b i

def vmulpd : Ymm K := fun i => a i * b i

/-- The second and the third operand multiplied, added to the first. -/
def vfmadd231pd : Ymm K := fun i => a i * b i + dst i

/-- In each half the two lanes of `a` are added, then the two of `b`. -/
def vhaddpd : Ymm K := ![a 0 + a 1, b 0 + b 1, a 2 + a 3, b 2 + b 3]

/-- The lanes are added to a pair; the upper half stays. -/
def haddpd : Ymm K := ![dst 0 + dst 1, a 0 + a 1, dst 2, dst 3]

@[simp] theorem vaddpd_apply : vaddpd a b i = a i + b i := rfl

@[simp] theorem vmulpd_apply : vmulpd a b i = a i * b i := rfl

@[simp] theorem vfmadd231pd_apply : vfmadd231pd dst a b i = a i * b i + dst i := rfl

end Packed

/-! ## Scalar arithmetic -/

section Scalar

variable (dst a b : Ymm K) (x : K) (high : K → K)

/-- Loading a scalar clears the rest of the `xmm` register. -/
def movsdLoad : Ymm K := ![x, 0, dst 2, dst 3]

def divsd : Ymm K := ![dst 0 / x, dst 1, dst 2, dst 3]

def vdivsd : Ymm K := ![a 0 / b 0, a 1, 0, 0]

/-- The first and the second operand multiplied, plus the third. -/
def vfmadd213sd : Ymm K := ![a 0 * dst 0 + b 0, dst 1, 0, 0]

/-- The second and the third operand multiplied, plus the first. -/
def vfmadd231sd : Ymm K := ![a 0 * b 0 + dst 0, dst 1, 0, 0]

/-- `vxorpd` with a mask whose low quadword is the sign bit; `high` is what the exclusive or
with the mask's other quadword makes of lane 1. -/
def vxorpdSign : Ymm K := ![-a 0, high (a 1), 0, 0]

@[simp] theorem movsdLoad_zero : movsdLoad dst x 0 = x := rfl

@[simp] theorem vdivsd_zero : vdivsd a b 0 = a 0 / b 0 := rfl

@[simp] theorem vxorpdSign_zero : vxorpdSign a high 0 = -a 0 := rfl

end Scalar

/-- A division sets the flag ZE when it divides a number that is not zero by zero. -/
def zeroDivide [DecidableEq K] (x y : K) : Bool := decide (x ≠ 0 ∧ y = 0)

theorem zeroDivide_of_ne_zero [DecidableEq K] {x y : K} (hy : y ≠ 0) :
    zeroDivide x y = false :=
  decide_eq_false fun h => hy h.2

end X86
