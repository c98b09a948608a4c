import Mathlib.Algebra.Field.Rat
import UbuntuProjects.Memory.CString
import UbuntuProjects.X86.Counted

/-!
# `sreverse.asm`, `asum.asm` and `adouble.asm`

Routines that `fromc.c` calls with an address and a length. The length is all of `rsi`. Double
precision numbers are exact rational numbers here, given by their index in the array; the
indices that are loaded and stored are kept. Addresses and indices are natural numbers. Every
address can be read: `sreverse` loads eight bytes at a time, and so up to seven behind its
buffer, which at the end of a mapped page is a fault that is not modelled. The stack is not
bounded.
-/

set_option autoImplicit false

namespace UbuntuProjects.AsmInC

open Memory X86

/-! ## `sreverse` -/

structure Pushing where
  stack : List ℕ
  r12 : ℕ

/-- SRCLINE: sreverse.asm:14-18 -/
def pushloop (m : Mem) (rbx : ℕ) (s : BitVec 64 × Pushing) :
    Option (Turn (BitVec 64 × Pushing) (List ℕ)) :=
  let rax := ofLittleEndian (Memory.read m (rbx + s.2.r12) 8)
  let stack := rax :: s.2.stack
  some (loopRcx s.1 ⟨stack, s.2.r12 + 1⟩ stack)

structure Popping where
  stack : List ℕ
  r12 : ℕ
  store : Tracked

/-- Below the words pushed lies the frame, which is not popped.
SRCLINE: sreverse.asm:23-27 -/
def poploop (rbx : ℕ) (s : BitVec 64 × Popping) :
    Option (Turn (BitVec 64 × Popping) Tracked) :=
  match s.2.stack with
  | [] => none
  | rax :: stack =>
    let t := s.2.store.store (rbx + s.2.r12) [UInt8.ofNat rax]
    some (loopRcx s.1 ⟨stack, s.2.r12 + 1, t⟩ t)

/-- SRCLINE: sreverse.asm:6-30 -/
def sreverse (fuel : ℕ) (m : Mem) (rdi : ℕ) (rsi : BitVec 64) : Option Tracked := do
  let stack ← loop (pushloop m rdi) fuel (rsi, ⟨[], 0⟩)
  loop (poploop rdi) fuel (rsi, ⟨stack, 0, ⟨m, []⟩⟩)

/-! ## Arrays of double precision numbers -/

/-- The number at each index, and the indices loaded and stored so far. -/
structure Doubles where
  val : ℕ → ℚ
  loaded : List ℕ
  stored : List ℕ

def Doubles.load (d : Doubles) (i : ℕ) : Doubles := { d with loaded := d.loaded ++ [i] }

def Doubles.store (d : Doubles) (i : ℕ) (x : ℚ) : Doubles where
  val := Function.update d.val i x
  loaded := d.loaded
  stored := d.stored ++ [i]

/-! ## `asum` -/

structure Summing where
  r12 : ℕ
  xmm0 : ℚ
  doubles : Doubles

/-- SRCLINE: asum.asm:16-19 -/
def sloop (s : BitVec 64 × Summing) : Option (Turn (BitVec 64 × Summing) Summing) :=
  let r12 := s.2.r12 + 1
  let xmm0 := s.2.xmm0 + s.2.doubles.val r12
  let t := ⟨r12, xmm0, s.2.doubles.load r12⟩
  some (loopRcx s.1 t t)

/-- SRCLINE: asum.asm:6-21 -/
def asum (fuel : ℕ) (rdi : ℕ → ℚ) (rsi : BitVec 64) : Option Summing :=
  let doubles := Doubles.load ⟨rdi, [], []⟩ 0
  loop sloop fuel (rsi - 1, ⟨0, doubles.val 0, doubles⟩)

/-! ## `adouble` -/

structure Doubling where
  r12 : ℕ
  doubles : Doubles

/-- SRCLINE: adouble.asm:13-18 -/
def aloop (s : BitVec 64 × Doubling) : Option (Turn (BitVec 64 × Doubling) Doubles) :=
  let xmm0 := s.2.doubles.val s.2.r12
  let doubles := (s.2.doubles.load s.2.r12).store s.2.r12 (xmm0 + xmm0)
  some (loopRcx s.1 ⟨s.2.r12 + 1, doubles⟩ doubles)

/-- SRCLINE: adouble.asm:6-20 -/
def adouble (fuel : ℕ) (rdi : ℕ → ℚ) (rsi : BitVec 64) : Option Doubles :=
  loop aloop fuel (rsi, ⟨0, ⟨rdi, [], []⟩⟩)

end UbuntuProjects.AsmInC
