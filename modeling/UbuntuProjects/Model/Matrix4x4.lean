import Mathlib.Data.Matrix.Mul
import Mathlib.Algebra.Field.Rat
import UbuntuProjects.X86.Avx

/-!
# `matrix4x4.asm`

Matrices of four rows of four double precision numbers, with exact rational arithmetic in
their place. Each definition goes through the instructions of its routine in order, one line
for each; a matrix in memory is its rows.

`inverse4x4` finds the coefficients of the characteristic polynomial from the traces of the
powers of the matrix. Whether the matrix is singular it reads from the flag ZE of MXCSR,
which the division by the last coefficient sets.
-/

set_option autoImplicit false

namespace UbuntuProjects.Matrix4x4

open X86

/-- The rows of a matrix in memory. -/
abbrev Rows : Type := Fin 4 → Ymm ℚ

/-- SRCLINE: matrix4x4.asm:27-30 -/
def matrixC : Rows :=
  ![![2, 11, 21, 37], ![3, 13, 23, 41], ![5, 17, 29, 43], ![7, 19, 31, 47]]

/-- SRCLINE: matrix4x4.asm:32-35 -/
def matrixS : Rows :=
  ![![1, 2, 3, 4], ![5, 6, 7, 8], ![9, 10, 11, 12], ![13, 14, 15, 16]]

/-! ## Products -/

/-- The accumulators of `multi4x4`. -/
structure Products where
  ymm12 : Ymm ℚ
  ymm13 : Ymm ℚ
  ymm14 : Ymm ℚ
  ymm15 : Ymm ℚ

/-- One turn of the loop; `rax` is `8*k`, and `rsi` is at row `k` of `B`.
SRCLINE: matrix4x4.asm:297-311 -/
def multiTurn (A B : Rows) (p : Products) (k : Fin 4) : Products :=
  let ymm0 := B k
  let ymm1 := vbroadcastsd (A 0 k)
  let ymm12 := vfmadd231pd p.ymm12 ymm1 ymm0
  let ymm1 := vbroadcastsd (A 1 k)
  let ymm13 := vfmadd231pd p.ymm13 ymm1 ymm0
  let ymm1 := vbroadcastsd (A 2 k)
  let ymm14 := vfmadd231pd p.ymm14 ymm1 ymm0
  let ymm1 := vbroadcastsd (A 3 k)
  let ymm15 := vfmadd231pd p.ymm15 ymm1 ymm0
  ⟨ymm12, ymm13, ymm14, ymm15⟩

/-- What `multi4x4` stores at `rdx`, its accumulators at the end.
SRCLINE: matrix4x4.asm:312-316 -/
def Products.rows (p : Products) : Rows := ![p.ymm12, p.ymm13, p.ymm14, p.ymm15]

/-- `rdi` is at `A` and `rsi` at `B`; `vzeroall` clears the accumulators.
SRCLINE: matrix4x4.asm:291-319 -/
def multi4x4 (A B : Rows) : Products :=
  (List.finRange 4).foldl (multiTurn A B) ⟨0, 0, 0, 0⟩

/-! ## Traces -/

/-- SRCLINE: matrix4x4.asm:263-289 -/
def vtrace (m : Rows) : Ymm ℚ :=
  let ymm0 := m 0
  let ymm1 := m 1
  let ymm2 := m 2
  let ymm3 := m 3
  let ymm0 := vblendpd ymm0 ymm1 0b0010
  let ymm0 := vblendpd ymm0 ymm2 0b0100
  let ymm0 := vblendpd ymm0 ymm3 0b1000
  let ymm0 := vhaddpd ymm0 ymm0
  let ymm0 := vpermpd ymm0 0b00100111
  haddpd ymm0 ymm0

/-! ## The coefficients -/

/-- The registers with the coefficients `p1` to `p4`, and the flag ZE. -/
structure Coefficients where
  xmm12 : Ymm ℚ
  xmm13 : Ymm ℚ
  xmm14 : Ymm ℚ
  xmm15 : Ymm ℚ
  ze : Bool

/-- From the traces in `xmm8` to `xmm11`; `high` is what the sign mask makes of lane 1, and
`p` what the last product left in the registers.
SRCLINE: matrix4x4.asm:192-212 -/
def coefficients (high : ℚ → ℚ) (p : Products) (ze : Bool) (xmm8 xmm9 xmm10 xmm11 : Ymm ℚ) :
    Coefficients :=
  let xmm12 := vxorpdSign xmm8 high
  let xmm13 := movsd p.ymm13 xmm12
  let xmm13 := vfmadd213sd xmm13 xmm8 xmm9
  let xmm13 := vxorpdSign xmm13 high
  let ze := ze || zeroDivide (xmm13 0) 2
  let xmm13 := divsd xmm13 2
  let xmm14 := movsd p.ymm14 xmm12
  let xmm14 := vfmadd213sd xmm14 xmm9 xmm10
  let xmm14 := vfmadd231sd xmm14 xmm13 xmm8
  let xmm14 := vxorpdSign xmm14 high
  let ze := ze || zeroDivide (xmm14 0) 3
  let xmm14 := divsd xmm14 3
  let xmm15 := movsd p.ymm15 xmm12
  let xmm15 := vfmadd213sd xmm15 xmm10 xmm11
  let xmm15 := vfmadd231sd xmm15 xmm13 xmm9
  let xmm15 := vfmadd231sd xmm15 xmm14 xmm8
  let xmm15 := vxorpdSign xmm15 high
  let ze := ze || zeroDivide (xmm15 0) 4
  let xmm15 := divsd xmm15 4
  ⟨xmm12, xmm13, xmm14, xmm15, ze⟩

/-! ## The inverse -/

/-- SRCLINE: matrix4x4.asm:131-134 -/
def identity : Rows := ![![1, 0, 0, 0], ![0, 1, 0, 0], ![0, 0, 1, 0], ![0, 0, 0, 1]]

/-- The result in `rax`, the matrix stored at the address in `rsi`, if any, and the flag ZE
behind the call. -/
structure Inverse where
  rax : ℕ
  stored : Option Rows
  ze : Bool
  deriving DecidableEq

/-- What a caller sees of a call. -/
def Inverse.result (r : Inverse) : ℕ × Option Rows := (r.rax, r.stored)

/-- `ze` is the flag ZE before the call and `source` the matrix at `rdi`. Both loops take one
row in a turn.
SRCLINE: matrix4x4.asm:128-261 -/
def inverse4x4 (high : ℚ → ℚ) (ze : Bool) (source : Rows) : Inverse :=
  let matrix2 := (multi4x4 source source).rows
  let matrix3 := (multi4x4 source matrix2).rows
  let last := multi4x4 source matrix3
  let matrix4 := last.rows
  let xmm0 := vtrace source
  let xmm8 := movsd 0 xmm0
  let xmm0 := vtrace matrix2
  let xmm9 := movsd 0 xmm0
  let xmm0 := vtrace matrix3
  let xmm10 := movsd 0 xmm0
  let xmm0 := vtrace matrix4
  let xmm11 := movsd 0 xmm0
  let p := coefficients high last ze xmm8 xmm9 xmm10 xmm11
  let ymm1 := vbroadcastsd (p.xmm12 0)
  let ymm2 := vbroadcastsd (p.xmm13 0)
  let ymm3 := vbroadcastsd (p.xmm14 0)
  let matrix1 := fun i => vmulpd (source i) ymm2
  let matrix2 := fun i => vmulpd (matrix2 i) ymm1
  let matrixI := fun i => vmulpd (identity i) ymm3
  let xmm0 := movsdLoad xmm0 1
  let ze := p.ze || zeroDivide (xmm0 0) (p.xmm15 0)
  let xmm0 := vdivsd xmm0 p.xmm15
  if ze then ⟨1, none, ze⟩
  else
    let xmm0 := vxorpdSign xmm0 high
    let ymm2 := vbroadcastsd (xmm0 0)
    let inversed := fun i =>
      let ymm0 := matrix1 i
      let ymm0 := vaddpd ymm0 (matrix2 i)
      let ymm0 := vaddpd ymm0 (matrix3 i)
      let ymm0 := vaddpd ymm0 (matrixI i)
      vmulpd ymm0 ymm2
    ⟨0, some inversed, ze⟩

/-- Calls one after another in one thread; nothing else writes MXCSR. -/
def calls (high : ℚ → ℚ) : Bool → List Rows → List Inverse
  | _, [] => []
  | ze, source :: rest =>
    inverse4x4 high ze source :: calls high (inverse4x4 high ze source).ze rest

end UbuntuProjects.Matrix4x4
