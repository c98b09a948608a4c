import UbuntuProjects.X86.Counted

/-!
# The comparisons of `strings.asm`

Both compare the bytes at `rdi` and `rsi`, as many as `rdx` tells. What they return at a
difference is computed from `len2`, the length of one string of the program. Addresses are
natural numbers.
-/

set_option autoImplicit false

namespace UbuntuProjects.MoveStrings

open Memory X86

/-- SRCLINE: strings.asm:5 -/
def str2 : List UInt8 := "This is the 2nd string.".toUTF8.data.toList ++ [10, 0]

/-- SRCLINE: strings.asm:6 -/
def len2 : BitVec 64 := BitVec.ofNat 64 (str2.length - 2)

/-- The addresses that `cmpsb` takes forward. -/
structure Comparing where
  rsi : ℕ
  rdi : ℕ

/-- The label `notequal`: `loop` has not counted the bytes that differ.
SRCLINE: strings.asm:104-108 -/
def notequal (rcx : BitVec 64) : BitVec 64 :=
  let rcx := rcx - 1
  len2 - rcx

/-- SRCLINE: strings.asm:97-103 -/
def cmpr (m : Mem) (s : BitVec 64 × Comparing) :
    Option (Turn (BitVec 64 × Comparing) (BitVec 64)) :=
  if m s.2.rsi ≠ m s.2.rdi then some (.leave (notequal s.1))
  else some (loopRcx s.1 ⟨s.2.rsi + 1, s.2.rdi + 1⟩ 0)

/-- SRCLINE: strings.asm:94-108 -/
def compare1 (fuel : ℕ) (m : Mem) (rdi rsi : ℕ) (rdx : BitVec 64) : Option (BitVec 64) :=
  loop (cmpr m) fuel (rdx, ⟨rsi, rdi⟩)

/-- `zf` is the flag in front of `repe`, which is read if no byte is compared.
SRCLINE: strings.asm:110-121 -/
def compare2 (m : Mem) (rdi rsi : ℕ) (rdx : BitVec 64) (zf : Bool) : BitVec 64 :=
  let r := repeCmpsb m rsi rdi rdx.toNat zf
  if r.zf then 0 else len2 - BitVec.ofNat 64 r.rcx

end UbuntuProjects.MoveStrings
