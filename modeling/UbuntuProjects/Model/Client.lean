import UbuntuProjects.Model.ErrFuncs

/-!
# The client of `ruptime`

`time` and `seconds` of `connect_retry` are of type `size_t`; the loop is given `fuel`
turns and has no result when they do not suffice. Attempts to connect are counted from 1.
-/

set_option autoImplicit false

namespace UbuntuProjects.Client

open UbuntuProjects.ErrFuncs

/-- SRCLINE: client.c:10 -/
def BUFLEN : ℕ := 128

/-! ## Connecting -/

/-- What `connect_retry` returns, the calls of `connect` it made and the seconds it slept. -/
structure Retry where
  code : ℤ
  attempts : ℕ
  slept : ℕ
  deriving DecidableEq, Repr

/-- `sleep` takes an `unsigned int`. -/
def sleep (time : UInt64) : ℕ := time.toUInt32.toNat

/-- The loop of `connect_retry`; `connect k` says whether the `k`-th attempt succeeds.
SRCLINE: client.c:16-21 -/
def retryLoop (connect : ℕ → Bool) (seconds : UInt64) :
    ℕ → UInt64 → ℕ → ℕ → Option Retry
  | 0, _, _, _ => none
  | fuel + 1, time, attempts, slept =>
    if time ≤ seconds then
      if connect (attempts + 1) then some ⟨0, attempts + 1, slept⟩
      else
        let slept := if time ≤ seconds / 2 then slept + sleep time else slept
        retryLoop connect seconds fuel (time <<< 1) (attempts + 1) slept
    else some ⟨-1, attempts, slept⟩

/-- SRCLINE: client.c:13-23 -/
def connect_retry (fuel : ℕ) (connect : ℕ → Bool) (seconds : UInt64) : Option Retry :=
  let seconds := if seconds = 0 then 1 else seconds
  retryLoop connect seconds fuel 1 0 0

/-! ## The addresses -/

/-- What one successful call of `recv` delivers. -/
structure Piece where
  bytes : List UInt8
  nonempty : bytes ≠ []
  length_le : bytes.length ≤ BUFLEN
  deriving DecidableEq

/-- An entry of the list of `getaddrinfo` and what the system does with it: the result of
`socket`, the outcome of each `connect` on that socket, the `errno` that a failed `connect`
leaves, and what `recv` delivers before it returns 0 or, when `recvFails`, fails. -/
structure Address where
  sockfd : ℤ
  connects : ℕ → Bool
  errno : ℕ
  received : List Piece
  recvFails : Bool

def EBADF : ℕ := 9

/-- `connect(sockfd, ..)`: there is no connection through a descriptor that is none. -/
def Address.connect (a : Address) (k : ℕ) : Bool := decide (0 ≤ a.sockfd) && a.connects k

/-- `errno` behind a `connect` that failed. -/
def Address.connectErrno (a : Address) : ℕ := if a.sockfd < 0 then EBADF else a.errno

/-! ## The program -/

/-- What is written to `stderr`. -/
inductive Message where
  | usage
  | getaddrinfo (error : ℕ)
  | recv
  | cantConnect (err : ℕ)
  deriving DecidableEq, Repr

/-- What `main` returns or the process exits with, the bytes on `stdout`, the message on
`stderr` and the addresses for which a connection was tried, in order. -/
structure Result where
  code : ℤ
  printed : List UInt8
  message : Option Message
  tried : List Address

/-- The bytes that go to `stdout`, and whether `err_sys` ends the process behind them.
SRCLINE: client.c:24-31 -/
def print_uptime (a : Address) : List UInt8 × Bool :=
  (a.received.flatMap Piece.bytes, a.recvFails)

/-- The loop of `main`: each branch of its body returns. The `errno` of a failed `socket`
is overwritten by the one of `connect`.
SRCLINE: client.c:48-60 -/
def tryAddresses (fuel : ℕ) (ailist : List Address) : Option Result :=
  match ailist with
  | [] => some ⟨0, [], none, []⟩
  | pai :: _ => do
    let r ← connect_retry fuel pai.connect 120
    if r.code < 0 then return ⟨-1, [], some (.cantConnect pai.connectErrno), [pai]⟩
    else
      let (printed, failed) := print_uptime pai
      if failed then return ⟨1, printed, some .recv, [pai]⟩
      else return ⟨0, printed, none, [pai]⟩

/-- SRCLINE: client.c:33-61 -/
def main (fuel argc : ℕ) (getaddrinfo : Except ℕ (List Address)) : Option Result :=
  if argc ≠ 2 then some ⟨1, [], some .usage, []⟩
  else
    match getaddrinfo with
    | .error err => some ⟨1, [], some (.getaddrinfo err), []⟩
    | .ok ailist => tryAddresses fuel ailist

end UbuntuProjects.Client
