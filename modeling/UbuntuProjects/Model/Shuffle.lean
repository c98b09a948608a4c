import Mathlib.Data.Fin.VecNotation
import UbuntuProjects.X86.Loop
import UbuntuProjects.X86.Sse

/-!
# `print_mask.asm`, `print16b.asm` and the searches that use them

The searches are those of `search_substr.asm`, `string_masks.asm` and `search_from_range.asm`.

A search takes sixteen bytes in a turn. `pcmpistrm` leaves a mask of whole bytes in `xmm0`;
`print_mask` prints it in the order of the text and moves its bits to `r13d`, where they are
counted. Counters and addresses are natural numbers, `r12d` and `r13d` have 32 bits.

`printf` keeps the registers that a callee saves. Those it may change are saved around its
calls (print16b.asm:30-39, print_mask.asm:36-45), or written again before they are read.
-/

set_option autoImplicit false

namespace UbuntuProjects.Shuffle

open X86 Memory

/-! ## `pstrlen` -/

/-- The length, and the index that the last `pcmpistri` left in `rcx`. -/
structure Length where
  rax : ℕ
  rcx : ℕ

/-- SRCLINE: print_mask.asm:16-21 -/
def pstrlenTurn (m : Mem) (rdi rax : ℕ) : Option (Turn ℕ Length) :=
  let r := pcmpistri 0b00001000 (fun _ => 0) (movdqu m (rdi + rax))
  if r.zf then some (.leave ⟨rax + r.rcx, r.rcx⟩) else some (.again (rax + 16))

/-- `xmm0` is saved and restored, `rcx` is not.
SRCLINE: print_mask.asm:9-25 -/
def pstrlen (fuel : ℕ) (m : Mem) (rdi : ℕ) : Option Length := loop (pstrlenTurn m rdi) fuel 0

/-! ## Printing a mask -/

/-- SRCLINE: print_mask.asm:50-51 -/
def bytereverse : Xmm := ![15, 14, 13, 12, 11, 10, 9, 8, 7, 6, 5, 4, 3, 2, 1, 0]

/-- SRCLINE: print_mask.asm:49-61 -/
def reverse_xmm0 (xmm0 : Xmm) : Xmm := pshufb xmm0 bytereverse

/-- The digits printed from bit `rcx` down; the comparison is of signed numbers, and the shift
takes its count modulo 32.
SRCLINE: print16b.asm:23-42 -/
def print16bLoop (r8d : BitVec 32) (rdx rcx : ℤ) : List Bool :=
  if rdx ≤ rcx - 1 then
    r8d.getLsbD (rcx % 32).toNat :: print16bLoop r8d rdx (rcx - 1)
  else [r8d.getLsbD (rcx % 32).toNat]
termination_by (rcx - rdx).toNat

/-- The mask is in `edi` and the number of digits in `rsi`.
SRCLINE: print16b.asm:9-46 -/
def print16b (edi : BitVec 32) (rsi : ℤ) : List Bool := print16bLoop edi (16 - rsi) 15

/-- The mask in `r13d`, and the digits printed. -/
structure Mask where
  r13d : BitVec 32
  printed : List Bool

/-- SRCLINE: print_mask.asm:27-47 -/
def print_mask (xmm0 : Xmm) (rsi : ℤ) : Mask :=
  let xmm0 := reverse_xmm0 xmm0
  let r13d := pmovmskb xmm0
  ⟨r13d, print16b r13d rsi⟩

/-! ## Searching -/

/-- The registers at the label of the loop. -/
structure Search where
  rdi : ℕ
  rbx : ℕ
  r12d : BitVec 32
  printed : List Bool

/-- What a search returns in `rax`, and the digits printed. -/
structure Found where
  rax : ℕ
  printed : List Bool

/-- A turn of a search with immediate `imm`. `setz` writes `cl`, and the rest of `rcx` is zero
throughout; `restore` is what becomes of `rcx` behind the call of `pstrlen`, from the value
pushed and the one that `pstrlen` leaves.
SRCLINE: search_substr.asm:50-76, string_masks.asm:58-83, search_from_range.asm:48-69 -/
def searchTurn (imm : ℕ) (restore : ℕ → ℕ → ℕ) (fuel : ℕ) (m : Mem) (xmm1 : Xmm) (s : Search) :
    Option (Turn Search Found) :=
  let xmm2 := movdqu m (s.rdi + s.rbx)
  let found := pcmpistrm imm xmm1 xmm2
  if found.zf = false then
    let mask := print_mask found.xmm0 16
    some (.again ⟨s.rdi, s.rbx + 16, s.r12d + popcnt mask.r13d, s.printed ++ mask.printed⟩)
  else
    let rdi := s.rdi + s.rbx
    match pstrlen fuel m rdi with
    | none => none
    | some len =>
      let rcx := restore 1 len.rcx
      let mask := print_mask found.xmm0 (len.rax - 1)
      let r12d := s.r12d + popcnt mask.r13d
      if rcx % 256 ≠ 0 then some (.leave ⟨r12d.toNat, s.printed ++ mask.printed⟩)
      else some (.again ⟨rdi, s.rbx + 16, r12d, s.printed ++ mask.printed⟩)

/-- The haystack is at `rdi` and the needle at `rsi`. Behind the call of `pstrlen` stands a
second `push rcx` (search_substr.asm:64), so `rcx` stays as `pstrlen` leaves it.
SRCLINE: search_substr.asm:40-80 -/
def psubstrsearch (fuel : ℕ) (m : Mem) (rdi rsi : ℕ) : Option Found :=
  loop (searchTurn 0b01001100 (fun _ rcx => rcx) fuel m (movdqu m rsi)) fuel ⟨rdi, 0, 0, []⟩

/-- The bytes at `rsi` and `rdx` in one register.
SRCLINE: string_masks.asm:55-57, search_from_range.asm:45-47 -/
def packed (m : Mem) (rsi rdx : ℕ) : Xmm := pinsrb (pinsrb (fun _ => 0) (m rsi) 0) (m rdx) 1

/-- A search for packed bytes. Behind the call of `pstrlen` stands `pop rcx`
(string_masks.asm:72, search_from_range.asm:59). -/
def packedSearch (imm fuel : ℕ) (m : Mem) (rdi rsi rdx : ℕ) : Option Found :=
  loop (searchTurn imm (fun pushed _ => pushed) fuel m (packed m rsi rdx)) fuel ⟨rdi, 0, 0, []⟩

/-- SRCLINE: string_masks.asm:46-89 -/
def pcharsrch (fuel : ℕ) (m : Mem) (rdi rsi rdx : ℕ) : Option Found :=
  packedSearch 0b01000000 fuel m rdi rsi rdx

/-- SRCLINE: search_from_range.asm:38-75 -/
def prangesrch (fuel : ℕ) (m : Mem) (rdi rsi rdx : ℕ) : Option Found :=
  packedSearch 0b01000100 fuel m rdi rsi rdx

end UbuntuProjects.Shuffle
