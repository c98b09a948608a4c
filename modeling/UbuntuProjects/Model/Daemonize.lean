import Mathlib.Data.Int.Notation
import UbuntuProjects.Concurrency.Processes
import UbuntuProjects.Memory.Descriptors

/-!
# `daemonize`: becoming a daemon

The model of c_projects/daemonize/daemonize.h, call by call. A process is a number in the
table of processes (its pid) with what the calls read and write of it; `daemonize` forks
twice, and each of the three processes runs on from its fork. Every call that can fail may
fail, except `setsid`, which cannot in a process that is not the leader of a group, and
`close`, after which the descriptor is not open whatever the call returns.

An open file has a kind and a number: descriptors that are copies of each other, by `dup` or
by `fork`, are open to the same number. A process that exits has no descriptors.
-/

set_option autoImplicit false

namespace UbuntuProjects.Daemonize

open Concurrency (ProcessProgram)
open Memory (Descriptors)

/-! ## Processes -/

inductive Signal where
  | hup
  | term
  | kill
  | other (n : ℕ)
  deriving DecidableEq, Repr

/-- What a descriptor is open to. -/
structure OpenFile (κ : Type) where
  kind : κ
  number : ℕ

/-- The limits on the number of descriptors. The hard limit may be infinite. -/
structure Limits where
  soft : ℕ
  hard : Option ℕ
  le : ∀ h, hard = some h → soft ≤ h

/-- What the calls see of a process. The session is the number of the process that has
created it. -/
structure Process (κ : Type) where
  fds : Descriptors (OpenFile κ)
  limits : Limits
  umask : ℕ
  cwd : String
  session : ℕ
  /-- the session has a controlling terminal -/
  terminal : Bool
  ignored : Signal → Bool
  blocked : Signal → Bool
  pending : Signal → Bool

section Calls

variable {κ : Type}

/-- A forked process: everything is inherited but the pending signals. -/
def Process.forked (p : Process κ) : Process κ := { p with pending := fun _ => false }

/-- Setting the action of a signal. A pending signal that is to be ignored is discarded. -/
def Process.sigaction (p : Process κ) (s : Signal) (ignore : Bool) : Process κ :=
  { p with
    ignored := Function.update p.ignored s ignore
    pending := if ignore then Function.update p.pending s false else p.pending }

/-- The descriptor that a call opens. -/
def Process.lowest? (p : Process κ) : Option ℕ := p.fds.lowest? p.limits.soft

def Process.install (p : Process κ) (fd : ℕ) (f : OpenFile κ) : Process κ :=
  { p with fds := p.fds.install fd f }

def Process.close (p : Process κ) (fd : ℕ) : Process κ := { p with fds := p.fds.close fd }

section Tables

variable {p : Process κ} {fd fd' : ℕ} {f : OpenFile κ}

@[simp] theorem Process.install_self : (p.install fd f).fds fd = some f :=
  Descriptors.install_self

theorem Process.install_of_ne (h : fd' ≠ fd) : (p.install fd f).fds fd' = p.fds fd' :=
  Descriptors.install_of_ne h

@[simp] theorem Process.close_self : (p.close fd).fds fd = none := Descriptors.close_self

theorem Process.close_of_ne (h : fd' ≠ fd) : (p.close fd).fds fd' = p.fds fd' :=
  Descriptors.close_of_ne h

/-- INTERNAL: a call opens a descriptor that is not open. -/
theorem Process.free_of_lowest? (h : p.lowest? = some fd) : p.fds fd = none :=
  (Descriptors.lowest?_eq_some_iff.mp h).2.1

end Tables

/-- A process that has ended. -/
def Process.ended (p : Process κ) : Process κ := { p with fds := .empty }

end Calls

/-- `rl.rlim_max`, or 1024 where there is no limit.
SRCLINE: daemonize.h:42-45 -/
def Limits.closeLimit (l : Limits) : ℕ := l.hard.getD 1024

/-! ## `daemonize` -/

/-- A call and whether it succeeds, or the descriptor that it returns. -/
inductive Call where
  | umask
  | fork (ok : Bool)
  | setsid
  | sigaction (ok : Bool)
  | chdir (ok : Bool)
  | getrlimit (ok : Bool)
  | close (fd : ℕ)
  | closed
  | openFile (fd : Option ℕ)
  | dup (fd : Option ℕ)
  | openlog
  | syslog
  | exit (status : ℤ)
  deriving DecidableEq, Repr

/-- Where a process is in `daemonize`. -/
inductive Pc where
  | start
  | fork
  | setsid
  | sigaction
  | forkAgain
  | chdir
  | getrlimit
  /-- in the loop that closes the descriptors below `limit`, before `i` -/
  | closing (limit i : ℕ)
  | openNull
  | dupOut (fd0 : Option ℕ)
  | dupErr (fd0 fd1 : Option ℕ)
  | check (fd0 fd1 fd2 : Option ℕ)
  /-- before the message on the descriptors -/
  | failed
  /-- `daemonize` has returned -/
  | done
  | exiting (status : ℤ)
  | exited (status : ℤ)
  deriving DecidableEq, Repr

/-- The end of `daemonize`.
SRCLINE: daemonize.h:53-56 -/
def afterOpenlog (fd0 fd1 fd2 : Option ℕ) : Pc :=
  if fd0 ≠ some 0 ∨ fd1 ≠ some 1 ∨ fd2 ≠ some 2 then .failed else .done

variable {κ : Type}

/-- The steps of a process in `daemonize`, with the number of files opened so far. The kind
of file behind /dev/null is a parameter.
SRCLINE: daemonize.h:16-57 -/
inductive DaemonizeStep (devNull : κ) (pid : ℕ) :
    ℕ → Pc × Process κ → Call → ℕ → Pc × Process κ → List (Pc × Process κ) → Prop
  | umask (n : ℕ) (p : Process κ) :
      DaemonizeStep devNull pid n (.start, p) .umask n (.fork, { p with umask := 0 }) []
  | fork (n : ℕ) (p : Process κ) :
      DaemonizeStep devNull pid n (.fork, p) (.fork true) n (.exiting 0, p)
        [(.setsid, p.forked)]
  | forkFails (n : ℕ) (p : Process κ) :
      DaemonizeStep devNull pid n (.fork, p) (.fork false) n (.exiting 2, p) []
  | setsid (n : ℕ) (p : Process κ) :
      DaemonizeStep devNull pid n (.setsid, p) .setsid n
        (.sigaction, { p with session := pid, terminal := false }) []
  | sigaction (n : ℕ) (p : Process κ) :
      DaemonizeStep devNull pid n (.sigaction, p) (.sigaction true) n
        (.forkAgain, p.sigaction .hup true) []
  | sigactionFails (n : ℕ) (p : Process κ) :
      DaemonizeStep devNull pid n (.sigaction, p) (.sigaction false) n (.exiting 3, p) []
  | forkAgain (n : ℕ) (p : Process κ) :
      DaemonizeStep devNull pid n (.forkAgain, p) (.fork true) n (.exiting 0, p)
        [(.chdir, p.forked)]
  | forkAgainFails (n : ℕ) (p : Process κ) :
      DaemonizeStep devNull pid n (.forkAgain, p) (.fork false) n (.exiting 4, p) []
  | chdir (n : ℕ) (p : Process κ) :
      DaemonizeStep devNull pid n (.chdir, p) (.chdir true) n
        (.getrlimit, { p with cwd := "/" }) []
  | chdirFails (n : ℕ) (p : Process κ) :
      DaemonizeStep devNull pid n (.chdir, p) (.chdir false) n (.exiting 5, p) []
  | getrlimit (n : ℕ) (p : Process κ) :
      DaemonizeStep devNull pid n (.getrlimit, p) (.getrlimit true) n
        (.closing p.limits.closeLimit 0, p) []
  | getrlimitFails (n : ℕ) (p : Process κ) :
      DaemonizeStep devNull pid n (.getrlimit, p) (.getrlimit false) n (.exiting 1, p) []
  | close (n : ℕ) (p : Process κ) {limit i : ℕ} : i < limit →
      DaemonizeStep devNull pid n (.closing limit i, p) (.close i) n
        (.closing limit (i + 1), p.close i) []
  | closed (n : ℕ) (p : Process κ) {limit i : ℕ} : ¬i < limit →
      DaemonizeStep devNull pid n (.closing limit i, p) .closed n (.openNull, p) []
  | opened (n : ℕ) {p : Process κ} {fd : ℕ} : p.lowest? = some fd →
      DaemonizeStep devNull pid n (.openNull, p) (.openFile (some fd)) (n + 1)
        (.dupOut (some fd), p.install fd ⟨devNull, n⟩) []
  | openFails (n : ℕ) (p : Process κ) :
      DaemonizeStep devNull pid n (.openNull, p) (.openFile none) n (.dupOut none, p) []
  | dupOut (n : ℕ) {p : Process κ} {fd0 : Option ℕ} {fd : ℕ} {f : OpenFile κ} :
      p.fds 0 = some f → p.lowest? = some fd →
      DaemonizeStep devNull pid n (.dupOut fd0, p) (.dup (some fd)) n
        (.dupErr fd0 (some fd), p.install fd f) []
  | dupOutFails (n : ℕ) (p : Process κ) (fd0 : Option ℕ) :
      DaemonizeStep devNull pid n (.dupOut fd0, p) (.dup none) n (.dupErr fd0 none, p) []
  | dupErr (n : ℕ) {p : Process κ} {fd0 fd1 : Option ℕ} {fd : ℕ} {f : OpenFile κ} :
      p.fds 0 = some f → p.lowest? = some fd →
      DaemonizeStep devNull pid n (.dupErr fd0 fd1, p) (.dup (some fd)) n
        (.check fd0 fd1 (some fd), p.install fd f) []
  | dupErrFails (n : ℕ) (p : Process κ) (fd0 fd1 : Option ℕ) :
      DaemonizeStep devNull pid n (.dupErr fd0 fd1, p) (.dup none) n
        (.check fd0 fd1 none, p) []
  | openlog (n : ℕ) (p : Process κ) (fd0 fd1 fd2 : Option ℕ) :
      DaemonizeStep devNull pid n (.check fd0 fd1 fd2, p) .openlog n
        (afterOpenlog fd0 fd1 fd2, p) []
  | failed (n : ℕ) (p : Process κ) :
      DaemonizeStep devNull pid n (.failed, p) .syslog n (.exiting 2, p) []
  | exit (n : ℕ) (p : Process κ) (status : ℤ) :
      DaemonizeStep devNull pid n (.exiting status, p) (.exit status) n
        (.exited status, p.ended) []

/-- The processes that run nothing but `daemonize`. -/
def daemonize (devNull : κ) : ProcessProgram ℕ (Pc × Process κ) Call :=
  fun pid n p l n' p' new => DaemonizeStep devNull pid n p l n' p' new

end UbuntuProjects.Daemonize
