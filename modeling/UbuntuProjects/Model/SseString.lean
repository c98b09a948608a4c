import UbuntuProjects.X86.Loop
import UbuntuProjects.X86.Sse

/-!
# `sse_string_cmp_explicit_length.asm`, `sse_string_cmp_implicit_length.asm` and
`sse_string_search.asm`

All take sixteen bytes in a turn. Explicit lengths are in `rax` and `rdx` and go down by
sixteen from turn to turn.
-/

set_option autoImplicit false

namespace UbuntuProjects.SseString

open X86 Memory

/-! ## Explicit lengths -/

namespace ExplicitLength

structure Registers where
  rbx : ℕ
  rax : BitVec 64
  rdx : BitVec 64

/-- SRCLINE: sse_string_cmp_explicit_length.asm:102-118 -/
def turn (m : Mem) (rdi rsi : ℕ) (s : Registers) : Option (Turn Registers ℕ) :=
  let xmm1 := movdqu m (rdi + s.rbx)
  let r := pcmpestri 0b00011000 (s.rax.setWidth 32) (s.rdx.setWidth 32) xmm1
    (movdqu m (rsi + s.rbx))
  if r.cf then some (.leave (s.rbx + r.rcx + 1))
  else if r.zf then some (.leave 0)
  else some (.again ⟨s.rbx + 16, s.rax - 16, s.rdx - 16⟩)

/-- The lengths are passed in `rdx` and `rcx`.
SRCLINE: sse_string_cmp_explicit_length.asm:95-121 -/
def pstrcmp (fuel : ℕ) (m : Mem) (rdi rsi : ℕ) (rdx rcx : BitVec 64) : Option ℕ :=
  loop (turn m rdi rsi) fuel ⟨0, rdx, rcx⟩

end ExplicitLength

/-! ## Implicit lengths -/

namespace ImplicitLength

/-- SRCLINE: sse_string_cmp_implicit_length.asm:62-76 -/
def turn (m : Mem) (rdi rsi : ℕ) (rbx : ℕ) : Option (Turn ℕ ℕ) :=
  let xmm1 := movdqu m (rdi + rbx)
  let r := pcmpistri 0b00011000 xmm1 (movdqu m (rsi + rbx))
  if r.cf then some (.leave (rbx + r.rcx + 1))
  -- rax is still zero
  else if r.zf then some (.leave 0)
  else some (.again (rbx + 16))

/-- SRCLINE: sse_string_cmp_implicit_length.asm:57-76 -/
def pstrcmp (fuel : ℕ) (m : Mem) (rdi rsi : ℕ) : Option ℕ := loop (turn m rdi rsi) fuel 0

end ImplicitLength

/-! ## Searching a byte -/

/-- The byte searched for, alone in its register.
SRCLINE: sse_string_search.asm:58-59 -/
def searched (m : Mem) (rsi : ℕ) : Xmm := pinsrb (fun _ => 0) (m rsi) 0

/-- SRCLINE: sse_string_search.asm:61-75 -/
def pstrscan_fTurn (m : Mem) (xmm0 : Xmm) (rdi rax : ℕ) : Option (Turn ℕ ℕ) :=
  let r := pcmpistri 0b00000000 xmm0 (movdqu m (rdi + rax))
  if r.cf then some (.leave (rax + r.rcx + 1))
  else if r.zf then some (.leave 0)
  else some (.again (rax + 16))

/-- SRCLINE: sse_string_search.asm:54-77 -/
def pstrscan_f (fuel : ℕ) (m : Mem) (rdi rsi : ℕ) : Option ℕ :=
  loop (pstrscan_fTurn m (searched m rsi) rdi) fuel 0

/-- The block, and the last place found so far. -/
structure LastScan where
  rax : ℕ
  r12 : ℕ

/-- `setz` and the jumps read the flags of `pcmpistri`.
SRCLINE: sse_string_search.asm:88-105 -/
def pstrscan_lTurn (m : Mem) (xmm0 : Xmm) (rdi : ℕ) (s : LastScan) :
    Option (Turn LastScan ℕ) :=
  let r := pcmpistri 0b01000000 xmm0 (movdqu m (rdi + s.rax))
  let bl := r.zf
  if r.cf then
    let r12 := s.rax + r.rcx + 1
    if bl then some (.leave r12) else some (.again ⟨s.rax + 16, r12⟩)
  else if r.zf then some (.leave s.r12)
  else some (.again ⟨s.rax + 16, s.r12⟩)

/-- SRCLINE: sse_string_search.asm:79-109 -/
def pstrscan_l (fuel : ℕ) (m : Mem) (rdi rsi : ℕ) : Option ℕ :=
  loop (pstrscan_lTurn m (searched m rsi) rdi) fuel ⟨0, 0⟩

end UbuntuProjects.SseString
