import UbuntuProjects.Control.Record
import UbuntuProjects.Memory.CString
import UbuntuProjects.Memory.Handles

/-!
# `fileio.asm`

`main` calls helpers that make one system call each and print a message about its outcome.
Every conditional block of `main` is assembled, since all conditions are 1 (fileio.asm:4-10).

`printString` leaves in `rax` what its own `write` returns. The helpers that open a file save
the descriptor around it when the call has succeeded; on every other path the result of the
system call is lost.
-/

set_option autoImplicit false

namespace UbuntuProjects.FileIo

open Memory Control

/-! ## Data -/

/-- SRCLINE: fileio.asm:29 -/
def NL : UInt8 := 0xa

/-- SRCLINE: fileio.asm:30 -/
def bufferlen : ℕ := 64

/-- The bytes of a text between quotes. -/
def ascii (s : String) : List UInt8 := s.toUTF8.data.toList

/-- SRCLINE: fileio.asm:33 -/
def text1 : CString := ⟨ascii "1. Hello...to everyone!" ++ [NL], by decide⟩

/-- SRCLINE: fileio.asm:35 -/
def text2 : CString := ⟨ascii "2. Here I am!" ++ [NL], by decide⟩

/-- SRCLINE: fileio.asm:37 -/
def text3 : CString := ⟨ascii "3. Alife and kicking!" ++ [NL], by decide⟩

/-- SRCLINE: fileio.asm:39 -/
def text4 : CString := ⟨ascii "Adios !!!" ++ [NL], by decide⟩

/-- SRCLINE: fileio.asm:41 -/
def error_cr : CString := ⟨ascii "error creation file" ++ [NL], by decide⟩

/-- SRCLINE: fileio.asm:42 -/
def error_cl : CString := ⟨ascii "error close file" ++ [NL], by decide⟩

/-- SRCLINE: fileio.asm:43 -/
def error_wt : CString := ⟨ascii "error writing to file" ++ [NL], by decide⟩

/-- SRCLINE: fileio.asm:44 -/
def error_op : CString := ⟨ascii "error opening file" ++ [NL], by decide⟩

/-- SRCLINE: fileio.asm:45 -/
def error_ap : CString := ⟨ascii "error appending to file" ++ [NL], by decide⟩

/-- SRCLINE: fileio.asm:46 -/
def error_dl : CString := ⟨ascii "error deleting file" ++ [NL], by decide⟩

/-- SRCLINE: fileio.asm:47 -/
def error_rd : CString := ⟨ascii "error reading file" ++ [NL], by decide⟩

/-- SRCLINE: fileio.asm:48 -/
def error_ps : CString := ⟨ascii "error positioning in file" ++ [NL], by decide⟩

/-- SRCLINE: fileio.asm:49 -/
def success_cr : CString := ⟨ascii "File created and opened" ++ [NL], by decide⟩

/-- SRCLINE: fileio.asm:50 -/
def success_cl : CString := ⟨ascii "File closed" ++ [NL, NL], by decide⟩

/-- SRCLINE: fileio.asm:51 -/
def success_wt : CString := ⟨ascii "Written to file" ++ [NL], by decide⟩

/-- SRCLINE: fileio.asm:52 -/
def success_op : CString := ⟨ascii "File opened for R/W" ++ [NL], by decide⟩

/-- SRCLINE: fileio.asm:53 -/
def success_ap : CString := ⟨ascii "File opened for appending" ++ [NL], by decide⟩

/-- SRCLINE: fileio.asm:54 -/
def success_dl : CString := ⟨ascii "File deleted" ++ [NL], by decide⟩

/-- SRCLINE: fileio.asm:55 -/
def success_rd : CString := ⟨ascii "Reading file" ++ [NL], by decide⟩

/-- SRCLINE: fileio.asm:56 -/
def success_ps : CString := ⟨ascii "Positioned in file" ++ [NL], by decide⟩

/-! ## Registers, system calls and the state -/

/-- What a register or `FD` holds: a number from a system call, or an address. -/
inductive Value where
  | number (n : ℤ)
  | data (s : CString)
  | buffer

/-- The system calls with what they return in `rax`, and the calls of `printString` by `main`
with the bytes from `buffer` on. `print` is the `write` of `printString`, to descriptor 1. -/
inductive Event where
  | creat (rax : ℤ)
  | openat (rax : ℤ)
  | write (rdi : Value) (rsi : CString) (rdx : ℕ) (rax : ℤ)
  | lseek (rdi : Value) (rsi rdx : ℕ) (rax : ℤ)
  | read (rdi : Value) (rdx : ℕ) (rax : ℤ)
  | close (rdi : Value) (rax : ℤ)
  | unlink (rax : ℤ)
  | print (rdx : ℕ) (rax : ℤ)
  | printString (rdi : Value) (buffer : Mem)

/-- What the system calls return, by the number of the helper that makes them: its own call,
the printing of its message, and the printing by `main` behind it; `bytes` is what a `read`
delivers. -/
structure Results where
  call : ℕ → ℤ
  message : ℕ → ℤ
  shown : ℕ → ℤ
  bytes : ℕ → Mem

/-- `buffer` is the memory from there on; the newest event is the first. -/
structure State where
  FD : Value
  buffer : Mem
  helpers : ℕ
  events : List Event

def log (e : Event) : Run State Unit := modify fun s => { s with events := e :: s.events }

/-- The return from a helper. -/
def ret (rax : Value) : Run State Value := do
  modify fun s => { s with helpers := s.helpers + 1 }
  return rax

/-- `mov qword[FD], rax` -/
def storeFD (rax : Value) : Run State Unit := modify fun s => { s with FD := rax }

/-- `mov rdi, qword[FD]` in front of a call. -/
def withFD (helper : Value → Run State Value) : Run State Value := do
  helper (← get).FD

/-! ## `printString` -/

/-- The distance to the NUL; there is no memory at a number.
SRCLINE: fileio.asm:290-297 -/
def strLoop (buffer : Mem) : Value → Option ℕ
  | .number _ => none
  | .data s => some s.length
  | .buffer => strlen buffer 0 (bufferlen + 1)

/-- `result` is what `write` returns. The program ends where it reads an address at which there
is no memory.
SRCLINE: fileio.asm:289-306 -/
def printString (result : ℤ) (rax rdi : Value) : Run State Value := do
  let s ← get
  match strLoop s.buffer rdi with
  | none => throw s
  | some 0 => return rax
  | some (n + 1) =>
    log (.print (n + 1) result)
    return .number result

/-! ## Helpers -/

/-- A helper that returns what `printString` leaves in `rax`. -/
def reporting (res : Results) (event : ℤ → Event) (success error : CString) :
    Run State Value := do
  let i := (← get).helpers
  let rax := res.call i
  log (event rax)
  if rax < 0 then
    ret (← printString (res.message i) (.number rax) (.data error))
  else
    ret (← printString (res.message i) (.number rax) (.data success))

/-- A helper that saves `rax` around `printString` when its call has succeeded. -/
def opening (res : Results) (event : ℤ → Event) (success error : CString) :
    Run State Value := do
  let i := (← get).helpers
  let rax := res.call i
  log (event rax)
  if rax < 0 then
    ret (← printString (res.message i) (.number rax) (.data error))
  else
    let _ ← printString (res.message i) (.number rax) (.data success)
    ret (.number rax)

/-- The bytes delivered and a NUL behind them. -/
def fill (buffer bytes : Mem) (n : ℕ) : Mem := fun i =>
  if i < n then bytes i else if i = n then 0 else buffer i

/-- The buffer is in `rsi`. The NUL of a full buffer is stored behind it.
SRCLINE: fileio.asm:164-179 -/
def readFile (res : Results) (rdi : Value) (rdx : ℕ) : Run State Value := do
  let i := (← get).helpers
  let rax := res.call i
  log (.read rdi rdx rax)
  if rax < 0 then
    ret (← printString (res.message i) (.number rax) (.data error_rd))
  else
    modify fun s => { s with buffer := fill s.buffer (res.bytes i) rax.toNat }
    let rax := Value.buffer
    let _ ← printString (res.message i) rax (.data success_rd)
    ret rax

/-- SRCLINE: fileio.asm:182-193 -/
def deleteFile (res : Results) : Run State Value :=
  reporting res .unlink success_dl error_dl

/-- SRCLINE: fileio.asm:196-210 -/
def appendFile (res : Results) : Run State Value :=
  opening res .openat success_ap error_ap

/-- SRCLINE: fileio.asm:213-227 -/
def openFile (res : Results) : Run State Value :=
  opening res .openat success_op error_op

/-- SRCLINE: fileio.asm:230-241 -/
def writeFile (res : Results) (rsi : CString) (rdx : ℕ) (rdi : Value) : Run State Value :=
  reporting res (.write rdi rsi rdx) success_wt error_wt

/-- SRCLINE: fileio.asm:244-255 -/
def positionFile (res : Results) (rsi rdx : ℕ) (rdi : Value) : Run State Value :=
  reporting res (.lseek rdi rsi rdx) success_ps error_ps

/-- SRCLINE: fileio.asm:258-269 -/
def closeFile (res : Results) (rdi : Value) : Run State Value :=
  reporting res (.close rdi) success_cl error_cl

/-- SRCLINE: fileio.asm:272-286 -/
def createFile (res : Results) : Run State Value :=
  opening res .creat success_cr error_cr

/-! ## `main` -/

/-- SRCLINE: fileio.asm:67-75 -/
def CREATE (res : Results) : Run State Value := do
  storeFD (← createFile res)
  let _ ← withFD (writeFile res text1 text1.length)
  withFD (closeFile res)

/-- SRCLINE: fileio.asm:80-88 -/
def OVERWRITE (res : Results) : Run State Value := do
  storeFD (← openFile res)
  let _ ← withFD (writeFile res text2 text2.length)
  withFD (closeFile res)

/-- SRCLINE: fileio.asm:93-101 -/
def APPEND (res : Results) : Run State Value := do
  storeFD (← appendFile res)
  let _ ← withFD (writeFile res text3 text3.length)
  withFD (closeFile res)

/-- SRCLINE: fileio.asm:106-118 -/
def O_WRITE (res : Results) : Run State Value := do
  storeFD (← openFile res)
  let _ ← withFD (positionFile res text2.length 0)
  let _ ← withFD (writeFile res text4 text4.length)
  withFD (closeFile res)

/-- `main` prints what `readFile` returns.
SRCLINE: fileio.asm:130-131, fileio.asm:149-150 -/
def printRead (res : Results) (rax : Value) : Run State Value := do
  let s ← get
  log (.printString rax s.buffer)
  printString (res.shown s.helpers) rax rax

/-- SRCLINE: fileio.asm:123-133 -/
def READ (res : Results) : Run State Value := do
  storeFD (← openFile res)
  let rax ← withFD fun rdi => readFile res rdi bufferlen
  let _ ← printRead res rax
  withFD (closeFile res)

/-- SRCLINE: fileio.asm:138-152 -/
def O_READ (res : Results) : Run State Value := do
  storeFD (← openFile res)
  let _ ← withFD (positionFile res text2.length 0)
  let rax ← withFD fun rdi => readFile res rdi 10
  let _ ← printRead res rax
  withFD (closeFile res)

/-- The last block deletes the file.
SRCLINE: fileio.asm:62-161 -/
def main (res : Results) : Run State Value := do
  let _ ← CREATE res
  let _ ← OVERWRITE res
  let _ ← APPEND res
  let _ ← O_WRITE res
  let _ ← READ res
  let _ ← O_READ res
  deleteFile res

/-- `FD` is zero at the start, and so is the buffer. -/
def start : State := ⟨.number 0, fun _ => 0, 0, []⟩

end UbuntuProjects.FileIo
