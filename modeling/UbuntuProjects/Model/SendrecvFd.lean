import UbuntuProjects.Model.ErrFuncs

/-!
# `sendrecv_fd`

A descriptor or an error travels as two bytes, NUL and a code; in front of a code that is
not zero stands the text of the error, and a code zero comes with a control message that
holds the descriptor. The peer's bytes reach `recv_fd` in the pieces that its calls of
`recvmsg` return (`Turn`).

`userfunc` is any function of the byte ranges it was called with before and of the one it
is called with now; the descriptor it gets is always STDERR_FILENO.
-/

set_option autoImplicit false

namespace UbuntuProjects.SendrecvFd

open Memory UbuntuProjects.ErrFuncs

/-- `CMSG_LEN(sizeof(int))`
SRCLINE: sendrecv_fd.h:15 -/
def CONTROLLEN : ℕ := 20

/-! ## Sending -/

/-- The message `send_fd` hands to `sendmsg`: the two bytes and, for a descriptor, the
control message with it. -/
structure Sent where
  buf0 : UInt8
  buf1 : UInt8
  control : Option Int32
  deriving DecidableEq, Repr

/-- The message for a descriptor or a negative error code. The code is negated as an
`int` and stored in a `char`.
SRCLINE: sendrecv_fd.c:31-51 -/
def sentMessage (sending_fd : Int32) : Sent :=
  if sending_fd < 0 then ⟨0, (-sending_fd).toInt8.toUInt8, none⟩
  else ⟨0, 0, some sending_fd⟩

/-- The result, and the message if it got as far as `sendmsg`; `allocated` says whether
`cmptr` is there or could be allocated, `sendmsg` what the system call returns.
SRCLINE: sendrecv_fd.c:21-55 -/
def send_fd (allocated : Bool) (sendmsg : Sent → ℤ) (sending_fd : Int32) :
    ℤ × Option Sent :=
  if ¬sending_fd < 0 ∧ ¬allocated then (-1, none)
  else if sendmsg (sentMessage sending_fd) ≠ 2 then (-1, some (sentMessage sending_fd))
  else (0, some (sentMessage sending_fd))

/-- The result, the bytes given to `write` and the message given to `sendmsg`; `write`
says what the system call returns.
SRCLINE: sendrecv_fd.c:7-18 -/
def send_err (allocated : Bool) (sendmsg : Sent → ℤ) (write : List UInt8 → ℤ)
    (errcode : Int32) (msg : CString) : ℤ × List UInt8 × Option Sent :=
  let n := msg.length
  if 0 < n ∧ write msg.bytes ≠ n then (-1, msg.bytes, none)
  else
    let errcode := if 0 ≤ errcode then -1 else errcode
    let r := send_fd allocated sendmsg errcode
    (if r.1 < 0 then -1 else 0, msg.bytes, r.2)

/-! ## Receiving -/

/-- What one call of `recvmsg` delivers: at least one byte and at most MAXLINE, the length
of the control message that came with them, and the `int` that `cmptr` then holds. -/
structure Received where
  bytes : List UInt8
  nonempty : bytes ≠ []
  length_le : bytes.length ≤ MAXLINE
  controllen : ℕ
  data : Int32

/-- The message of `send_fd` delivered in one piece, the descriptor translated to itself;
without a control message `cmptr` keeps the `int` it holds. -/
def deliver (sent : Sent) (stale : Int32) : Received where
  bytes := [sent.buf0, sent.buf1]
  nonempty := List.cons_ne_nil _ _
  length_le := Nat.le_of_ble_eq_true rfl
  controllen := if sent.control.isSome then CONTROLLEN else 0
  data := sent.control.getD stale

/-- What the system gives in one turn of the outer loop. -/
inductive Turn where
  /-- `cmptr` is NULL and `malloc` fails -/
  | noMemory
  /-- `recvmsg` fails -/
  | failed
  /-- `recvmsg` returns 0 -/
  | closed
  | received (msg : Received)

inductive Outcome where
  | returns (code : ℤ)
  /-- the process ends in one of the reporting functions -/
  | ends (how : Ending) (report : String)
  /-- blocked in `recvmsg` -/
  | waits
  deriving DecidableEq, Repr

/-- The end of a run of `recv_fd` and the byte ranges passed to `userfunc`, in order. -/
structure Result where
  outcome : Outcome
  passed : List (List UInt8)
  deriving DecidableEq, Repr

/-- The variables of `recv_fd` that change in the loops, and the calls of `userfunc`. -/
structure Locals where
  nr : ℤ
  status : ℤ
  newfd : ℤ
  passed : List (List UInt8)

/-- A reporting function that does not return. -/
def die (f : Reporting) (report : String) (l : Locals) : Result :=
  ⟨.ends f.ending report, l.passed⟩

/-- The branch for a NUL, `ptr` already behind it and `rest` the bytes from `ptr` on.
SRCLINE: sendrecv_fd.c:81-91 -/
def readStatus (msg : Received) (ptr : ℕ) (rest : List UInt8) (l : Locals) :
    Except Result Locals := do
  if (ptr : ℤ) ≠ l.nr - 1 then
    throw (die err_dump "message format violation" l)
  let status : ℤ := (rest.headD 0).toNat
  if status = 0 then
    if msg.controllen ≠ CONTROLLEN then
      throw (die err_dump "received code zero without fd" l)
    pure { l with status := status, newfd := msg.data.toInt, nr := l.nr - 2 }
  else
    pure { l with status := status, newfd := -status, nr := l.nr - 2 }

/-- The call of `userfunc` with the first `nr` bytes of `buf`.
SRCLINE: sendrecv_fd.c:93-94 -/
def passOn (userfunc : List (List UInt8) → List UInt8 → ℤ) (msg : Received) (l : Locals) :
    Except Result Locals := do
  if 0 < l.nr then
    let range := msg.bytes.take l.nr.toNat
    let l' := { l with passed := l.passed ++ [range] }
    if userfunc l.passed range ≠ l.nr then
      throw ⟨.returns (-1), l'.passed⟩
    pure l'
  else pure l

/-- The inner loop from the byte at `ptr` on; the list holds the bytes from there.
SRCLINE: sendrecv_fd.c:80-97 -/
def scan (userfunc : List (List UInt8) → List UInt8 → ℤ) (msg : Received) :
    List UInt8 → ℕ → Locals → Except Result Locals
  | [], _, l => pure l
  | c :: rest, ptr, l => do
    if (ptr : ℤ) < l.nr then
      let l ← if c = 0 then readStatus msg (ptr + 1) rest l else pure l
      let l ← passOn userfunc msg l
      if 0 ≤ l.status then
        throw ⟨.returns l.newfd, l.passed⟩
      scan userfunc msg rest (ptr + 1) l
    else pure l

/-- The outer loop, one turn after the other.
SRCLINE: sendrecv_fd.c:62-99 -/
def loop (userfunc : List (List UInt8) → List UInt8 → ℤ) : List Turn → Locals → Result
  | [], l => ⟨.waits, l.passed⟩
  | .noMemory :: _, l => ⟨.returns (-1), l.passed⟩
  | .failed :: _, l => die err_sys "error call recvmsg" l
  -- `err_ret` reports "connection closed by a server" and returns
  | .closed :: _, l => ⟨.returns (-1), l.passed⟩
  | .received msg :: turns, l =>
    match scan userfunc msg msg.bytes 0 { l with nr := msg.bytes.length } with
    | .error result => result
    | .ok l => loop userfunc turns l

/-- SRCLINE: sendrecv_fd.c:57-100 -/
def recv_fd (userfunc : List (List UInt8) → List UInt8 → ℤ) (turns : List Turn) : Result :=
  loop userfunc turns ⟨0, -1, 0, []⟩

end UbuntuProjects.SendrecvFd
