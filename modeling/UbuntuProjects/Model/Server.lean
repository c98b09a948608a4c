import UbuntuProjects.Concurrency.Forking
import Mathlib.Data.Int.Notation

/-!
# The accept loop of `ruptimed`

`serve` is one loop that parent and child run alike behind `fork`. A control point is the
next system call of the process; a child is known by its index in the table of processes.
Every call may succeed or fail.
-/

set_option autoImplicit false

namespace UbuntuProjects.Server

open Concurrency

/-- The messages of `serve` for `syslog`. -/
inductive Log where
  | acceptCall
  | forkCall
  | dup2Call
  | unexpectedReturn
  deriving DecidableEq, Repr

/-- A call of the loop and its outcome. -/
inductive Call where
  /-- the descriptor of the connection, or a failure -/
  | accept (clfd : Option ℕ)
  /-- the process that was forked, or a failure -/
  | fork (pid : Option ℕ)
  | dup2 (fd : ℕ) (ok : Bool)
  | close (fd : ℕ)
  | execl (ok : Bool)
  | syslog (message : Log)
  | exit (status : ℤ)
  | waitpid (pid : ℕ) (ok : Bool)
  deriving DecidableEq, Repr

def STDOUT_FILENO : ℕ := 1

def STDERR_FILENO : ℕ := 2

/-- Where a process is in `serve`. -/
inductive Pc where
  | accepting
  | forking (clfd : ℕ)
  | dupOut (clfd : ℕ)
  | dupErr (clfd : ℕ)
  | childClose (clfd : ℕ)
  | exec
  | execReturned
  | parentClose (clfd pid : ℕ)
  | waiting (pid : ℕ)
  /-- a branch that reports and exits -/
  | failed (message : Log)
  | exiting (status : ℤ)
  | exited (status : ℤ)
  /-- the image of the process is `uptime` -/
  | uptime
  deriving DecidableEq, Repr

/-- The child that `waitpid` waits for has ended; `uptime` ends in its own time. -/
def Ended (p : Pc) : Prop := p = .uptime ∨ ∃ status, p = .exited status

/-- The steps of a process in `serve`.
SRCLINE: server.c:39-70, server.h:41-72 -/
inductive serve : ForkProgram Pc Call
  | accept (ps : List Pc) (clfd : ℕ) :
      serve ps .accepting (.accept (some clfd)) (.forking clfd) []
  | acceptFails (ps : List Pc) : serve ps .accepting (.accept none) (.failed .acceptCall) []
  | fork (ps : List Pc) (clfd : ℕ) :
      serve ps (.forking clfd) (.fork (some ps.length)) (.parentClose clfd ps.length)
        [.dupOut clfd]
  | forkFails (ps : List Pc) (clfd : ℕ) :
      serve ps (.forking clfd) (.fork none) (.failed .forkCall) []
  | dupOut (ps : List Pc) (clfd : ℕ) :
      serve ps (.dupOut clfd) (.dup2 STDOUT_FILENO true) (.dupErr clfd) []
  | dupOutFails (ps : List Pc) (clfd : ℕ) :
      serve ps (.dupOut clfd) (.dup2 STDOUT_FILENO false) (.failed .dup2Call) []
  | dupErr (ps : List Pc) (clfd : ℕ) :
      serve ps (.dupErr clfd) (.dup2 STDERR_FILENO true) (.childClose clfd) []
  | dupErrFails (ps : List Pc) (clfd : ℕ) :
      serve ps (.dupErr clfd) (.dup2 STDERR_FILENO false) (.failed .dup2Call) []
  | childClose (ps : List Pc) (clfd : ℕ) :
      serve ps (.childClose clfd) (.close clfd) .exec []
  | execl (ps : List Pc) : serve ps .exec (.execl true) .uptime []
  | execlFails (ps : List Pc) : serve ps .exec (.execl false) .execReturned []
  /-- nothing exits here: the branch falls out of the `if` into the next turn -/
  | execReturned (ps : List Pc) :
      serve ps .execReturned (.syslog .unexpectedReturn) .accepting []
  | parentClose (ps : List Pc) (clfd pid : ℕ) :
      serve ps (.parentClose clfd pid) (.close clfd) (.waiting pid) []
  | waitpid (ps : List Pc) (pid : ℕ) (p : Pc) :
      ps[pid]? = some p → Ended p → serve ps (.waiting pid) (.waitpid pid true) .accepting []
  | waitpidFails (ps : List Pc) (pid : ℕ) :
      serve ps (.waiting pid) (.waitpid pid false) .accepting []
  | failed (ps : List Pc) (message : Log) :
      serve ps (.failed message) (.syslog message) (.exiting 1) []
  | exiting (ps : List Pc) (status : ℤ) :
      serve ps (.exiting status) (.exit status) (.exited status) []

/-- The process that enters `serve`. -/
def start : List Pc := [.accepting]

/-- Any outcome of any call. -/
def anyCall : List Pc → ℕ × Call → Prop := fun _ _ => True

end UbuntuProjects.Server
