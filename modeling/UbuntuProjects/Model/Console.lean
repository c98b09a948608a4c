import Mathlib.Data.UInt
import UbuntuProjects.Memory.CString
import UbuntuProjects.X86.Loop

/-!
# `console.asm`

`reads` takes its input byte by byte with the system call `read`, which writes the byte to
`.inputchar`; the result of the call is not looked at. Addresses are natural numbers, the
counter in `r14` has 64 bits. The newline at `NL` is data that nothing writes.
-/

set_option autoImplicit false

namespace UbuntuProjects.Console

open Memory X86

/-- SRCLINE: console.asm:8 -/
def NL : UInt8 := 0xa

/-- The registers of `reads` at `.readc`, the memory with the addresses written so far, and the
number of bytes asked for. -/
structure Reading where
  store : Tracked
  calls : ℕ
  r12 : ℕ
  r14 : BitVec 64

/-- The system call: `input` is the byte that each call delivers, `none` where it returns 0 and
leaves the byte at `rsi` as it is.
SRCLINE: console.asm:83-87 -/
def readc (input : ℕ → Option UInt8) (rsi : ℕ) (s : Reading) : Tracked :=
  match input s.calls with
  | some b => s.store.store rsi [b]
  | none => s.store

/-- The bounds are compared as signed bytes and the counter as an unsigned number.
SRCLINE: console.asm:82-103 -/
def readcTurn (input : ℕ → Option UInt8) (inputchar : ℕ) (r13 : BitVec 64) (s : Reading) :
    Option (Turn Reading Tracked) :=
  let t := readc input inputchar s
  let al := t.mem inputchar
  if al = NL then some (.leave (t.store (s.r12 + 1) [0]))
  else if al.toInt8 < 97 then some (.again ⟨t, s.calls + 1, s.r12, s.r14⟩)
  else if 122 < al.toInt8 then some (.again ⟨t, s.calls + 1, s.r12, s.r14⟩)
  else
    let r14 := s.r14 + 1
    if r13 < r14 then some (.again ⟨t, s.calls + 1, s.r12, r14⟩)
    else some (.again ⟨t.store s.r12 [al], s.calls + 1, s.r12 + 1, r14⟩)

/-- The buffer is at `rdi` and its length without the NUL is in `rsi`.
SRCLINE: console.asm:69-108 -/
def reads (fuel : ℕ) (input : ℕ → Option UInt8) (inputchar : ℕ) (m : Mem) (rdi : ℕ)
    (rsi : BitVec 64) : Option Tracked :=
  loop (readcTurn input inputchar rsi) fuel ⟨⟨m, []⟩, 0, rdi, 0⟩

end UbuntuProjects.Console
