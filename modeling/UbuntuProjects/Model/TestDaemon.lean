import UbuntuProjects.Memory.Decimal
import UbuntuProjects.Model.Daemonize

/-!
# The daemon of c_projects/daemonize

The model of c_projects/daemonize/test_daemon.c: any number of processes that are started as
the daemon at any time. Each runs `daemonize`, takes the lock on the lock file, writes its pid
into the file and waits for signals in a thread of its own. Every call may fail; `write`,
whose result is not looked at, writes any part of its text.

The lock on the file belongs to an open file, and goes with the last descriptor of it; nobody
but the daemon's processes uses the lock file. A signal may be sent to a process at any time.
What is blocked and what is pending is modelled for the process as a whole, since both of its
threads block the same signals.
-/

set_option autoImplicit false

namespace UbuntuProjects.TestDaemon

open Concurrency (ProcessProgram)
open Daemonize (Signal OpenFile Process DaemonizeStep)
open Memory (decimal)

/-- What the daemon's descriptors are open to. -/
inductive Kind where
  | inherited
  | devNull
  | lockFile
  | log
  deriving DecidableEq, Repr

/-- What the processes share: how many files have been opened, the number of the open file
that has the lock, and what the lock file contains, if it exists. -/
structure Kernel where
  opened : ℕ
  locked : Option ℕ
  lockFile : Option (List UInt8)

/-- The bytes of `buf` that are written.
SRCLINE: test_daemon.c:30-31 -/
def pidText (pid : ℕ) : List UInt8 := (decimal pid).bytes ++ [0]

inductive Flock where
  | granted
  | busy
  | failed
  deriving DecidableEq, Repr

/-- A call with its result, or a signal from outside. -/
inductive Call where
  | daemonize (call : Daemonize.Call)
  | openLockFile (fd : Option ℕ)
  | flock (result : Flock)
  | close
  | ftruncate (ok : Bool)
  | write (n : ℕ)
  | sigaction (ok : Bool)
  | pthreadSigmask (ok : Bool)
  | pthreadCreate (ok : Bool)
  | syslog
  | sigwait (s : Option Signal)
  | exit (status : ℤ)
  | signal (s : Signal)
  deriving DecidableEq, Repr

/-- Where the thread is that waits for signals. -/
inductive Thread where
  | sigwait
  | handle (s : Signal)
  | failed
  | exiting (status : ℤ)
  deriving DecidableEq, Repr

/-- Where a process is: in `daemonize`, in `already_running` behind `open`, in `main`, or with
a second thread. -/
inductive Pc where
  | daemonize (c : Daemonize.Pc)
  | flock (fd : ℕ)
  | close (fd : ℕ)
  | ftruncate (fd : ℕ)
  | write (fd : ℕ)
  | sigaction
  | sigmask
  | create
  /-- before the message of a failed call -/
  | failed
  | exiting (status : ℤ)
  /-- `main` has written its last message, or not yet -/
  | serving (started : Bool) (t : Thread)
  | exited (status : ℤ)
  | killed (s : Signal)
  deriving DecidableEq, Repr

/-- The process is no more. -/
def Pc.ended : Pc → Bool
  | .daemonize (.exited _) => true
  | .exited _ => true
  | .killed _ => true
  | _ => false

/-- `syslog`. Any call may connect to the logger; which one does is left open. -/
inductive Syslog : ℕ → Process Kind → ℕ → Process Kind → Prop
  | sent (n : ℕ) (p : Process Kind) : Syslog n p n p
  | connected (n : ℕ) {p : Process Kind} {fd : ℕ} : p.lowest? = some fd →
      Syslog n p (n + 1) (p.install fd ⟨.log, n⟩)

/-- What the thread does after its message on a signal; `reread` is empty.
SRCLINE: test_daemon.c:45-55 -/
def handled : Signal → Thread
  | .hup => .sigwait
  | .term => .exiting 0
  | _ => .sigwait

/-- What `sigfillset(&mask)` puts into the mask: the library keeps two signals for itself.
SRCLINE: test_daemon.c:84 -/
def mask : Signal → Bool
  | .other n => n != 32 && n != 33
  | _ => true

/-- `SIGCONT` -/
def sigcont : Signal := .other 18

/-- `SIGSTOP` -/
def sigstop : Signal := .other 19

/-- `SIGSTOP`, `SIGTSTP`, `SIGTTIN` and `SIGTTOU`. -/
def stops : Signal → Bool
  | .other n => 19 ≤ n && n ≤ 22
  | _ => false

/-- The signals of the mask that can be blocked. -/
def blockable (s : Signal) : Bool := mask s && s != .kill && s != sigstop

/-- `pthread_sigmask(SIG_BLOCK, &mask, NULL)`
SRCLINE: test_daemon.c:85 -/
def blockAll (p : Process Kind) : Process Kind :=
  { p with blocked := fun s => p.blocked s || blockable s }

/-- Sending `s` discards `r` if it is pending: `SIGCONT` and the signals that stop a process
discard each other. -/
def cancels (s r : Signal) : Bool := s == sigcont && stops r || stops s && r == sigcont

/-- What is no longer pending when `s` is sent. -/
def cancel (p : Process Kind) (s : Signal) : Process Kind :=
  { p with pending := fun r => p.pending r && !cancels s r }

/-- A signal becomes pending, or is taken. -/
def setPending (p : Process Kind) (s : Signal) (b : Bool) : Process Kind :=
  { p with pending := Function.update p.pending s b }

/-- The steps of one process, and the signals that are sent to it.
SRCLINE: test_daemon.c:11-98 -/
inductive DaemonStep (pid : ℕ) :
    Kernel → Pc × Process Kind → Call → Kernel → Pc × Process Kind →
      List (Pc × Process Kind) → Prop
  | daemonize (k : Kernel) {n' : ℕ} {c c' : Daemonize.Pc} {p p' : Process Kind}
      {call : Daemonize.Call} {new : List (Daemonize.Pc × Process Kind)} :
      DaemonizeStep .devNull pid k.opened (c, p) call n' (c', p') new →
      DaemonStep pid k (.daemonize c, p) (.daemonize call) { k with opened := n' }
        (.daemonize c', p') (new.map fun q => (.daemonize q.1, q.2))
  -- `already_running`
  | opened (k : Kernel) {p : Process Kind} {fd : ℕ} : p.lowest? = some fd →
      DaemonStep pid k (.daemonize .done, p) (.openLockFile (some fd))
        { k with opened := k.opened + 1, lockFile := some (k.lockFile.getD []) }
        (.flock fd, p.install fd ⟨.lockFile, k.opened⟩) []
  | openFails (k : Kernel) (p : Process Kind) :
      DaemonStep pid k (.daemonize .done, p) (.openLockFile none) k (.failed, p) []
  | granted (k : Kernel) {p : Process Kind} {fd : ℕ} {f : OpenFile Kind} :
      p.fds fd = some f → k.locked = none ∨ k.locked = some f.number →
      DaemonStep pid k (.flock fd, p) (.flock .granted) { k with locked := some f.number }
        (.ftruncate fd, p) []
  | busy (k : Kernel) {p : Process Kind} {fd d : ℕ} {f : OpenFile Kind} :
      p.fds fd = some f → k.locked = some d → d ≠ f.number →
      DaemonStep pid k (.flock fd, p) (.flock .busy) k (.close fd, p) []
  | flockFails (k : Kernel) (p : Process Kind) (fd : ℕ) :
      DaemonStep pid k (.flock fd, p) (.flock .failed) k (.failed, p) []
  | close (k : Kernel) (p : Process Kind) (fd : ℕ) :
      DaemonStep pid k (.close fd, p) .close k (.failed, p.close fd) []
  | ftruncate (k : Kernel) (p : Process Kind) (fd : ℕ) :
      DaemonStep pid k (.ftruncate fd, p) (.ftruncate true)
        { k with lockFile := k.lockFile.map fun _ => [] } (.write fd, p) []
  | ftruncateFails (k : Kernel) (p : Process Kind) (fd : ℕ) :
      DaemonStep pid k (.ftruncate fd, p) (.ftruncate false) k (.write fd, p) []
  | write (k : Kernel) (p : Process Kind) (fd : ℕ) {n : ℕ} : n ≤ (pidText pid).length →
      DaemonStep pid k (.write fd, p) (.write n)
        { k with lockFile := k.lockFile.map fun bs => (pidText pid).take n ++ bs.drop n }
        (.sigaction, p) []
  -- `main`
  | sigaction (k : Kernel) (p : Process Kind) :
      DaemonStep pid k (.sigaction, p) (.sigaction true) k (.sigmask, p.sigaction .hup false) []
  | sigactionFails (k : Kernel) (p : Process Kind) :
      DaemonStep pid k (.sigaction, p) (.sigaction false) k (.failed, p) []
  | sigmask (k : Kernel) (p : Process Kind) :
      DaemonStep pid k (.sigmask, p) (.pthreadSigmask true) k (.create, blockAll p) []
  | sigmaskFails (k : Kernel) (p : Process Kind) :
      DaemonStep pid k (.sigmask, p) (.pthreadSigmask false) k (.failed, p) []
  | create (k : Kernel) (p : Process Kind) :
      DaemonStep pid k (.create, p) (.pthreadCreate true) k (.serving false .sigwait, p) []
  | createFails (k : Kernel) (p : Process Kind) :
      DaemonStep pid k (.create, p) (.pthreadCreate false) k (.failed, p) []
  | message (k : Kernel) {p p' : Process Kind} {n' : ℕ} : Syslog k.opened p n' p' →
      DaemonStep pid k (.failed, p) .syslog { k with opened := n' } (.exiting 1, p') []
  | exit (k : Kernel) (p : Process Kind) (status : ℤ) :
      DaemonStep pid k (.exiting status, p) (.exit status) k (.exited status, p.ended) []
  | started (k : Kernel) {p p' : Process Kind} {n' : ℕ} (t : Thread) :
      Syslog k.opened p n' p' →
      DaemonStep pid k (.serving false t, p) .syslog { k with opened := n' }
        (.serving true t, p') []
  -- `thrfun`
  | sigwait (k : Kernel) {p : Process Kind} (b : Bool) {s : Signal} : mask s = true →
      p.pending s = true →
      DaemonStep pid k (.serving b .sigwait, p) (.sigwait (some s)) k
        (.serving b (.handle s), setPending p s false) []
  | sigwaitFails (k : Kernel) (p : Process Kind) (b : Bool) :
      DaemonStep pid k (.serving b .sigwait, p) (.sigwait none) k (.serving b .failed, p) []
  | handled (k : Kernel) {p p' : Process Kind} {n' : ℕ} (b : Bool) (s : Signal) :
      Syslog k.opened p n' p' →
      DaemonStep pid k (.serving b (.handle s), p) .syslog { k with opened := n' }
        (.serving b (handled s), p') []
  | waitFailed (k : Kernel) {p p' : Process Kind} {n' : ℕ} (b : Bool) :
      Syslog k.opened p n' p' →
      DaemonStep pid k (.serving b .failed, p) .syslog { k with opened := n' }
        (.serving b (.exiting 1), p') []
  | leave (k : Kernel) (p : Process Kind) (b : Bool) (status : ℤ) :
      DaemonStep pid k (.serving b (.exiting status), p) (.exit status) k
        (.exited status, p.ended) []
  -- the signals; a process that is stopped takes no step for a while
  | killed (k : Kernel) {c : Pc} {p : Process Kind} {s : Signal} : c.ended = false →
      s = .kill ∨ p.blocked s = false ∧ p.ignored s = false ∧ s ≠ sigcont ∧ stops s = false →
      DaemonStep pid k (c, p) (.signal s) k (.killed s, p.ended) []
  | pending (k : Kernel) {c : Pc} {p : Process Kind} {s : Signal} : c.ended = false →
      s ≠ .kill → p.blocked s = true →
      DaemonStep pid k (c, p) (.signal s) k (c, setPending (cancel p s) s true) []
  | discarded (k : Kernel) {c : Pc} {p : Process Kind} {s : Signal} : c.ended = false →
      s ≠ .kill → p.ignored s = true ∨ (∃ n, s = .other n) ∧ p.blocked s = false →
      DaemonStep pid k (c, p) (.signal s) k (c, cancel p s) []

/-- The daemon's program. -/
def testDaemon : ProcessProgram Kernel (Pc × Process Kind) Call :=
  fun pid k p l k' p' new => DaemonStep pid k p l k' p' new

/-- Some process has a descriptor of the open file `d`. -/
def Referred (ps : List (Pc × Process Kind)) (d : ℕ) : Prop :=
  ∃ (i : ℕ) (q : Pc × Process Kind) (fd : ℕ) (f : OpenFile Kind),
    ps[i]? = some q ∧ q.2.fds fd = some f ∧ f.number = d

/-- The lock goes with the last descriptor of the open file that has it. -/
inductive Settles (ps : List (Pc × Process Kind)) : Kernel → Kernel → Prop
  | stays (k : Kernel) : (∀ d, k.locked = some d → Referred ps d) → Settles ps k k
  | released (k : Kernel) {d : ℕ} : k.locked = some d → ¬Referred ps d →
      Settles ps k { k with locked := none }

/-- Processes that are started as the daemon. Nobody has the lock. -/
structure Starts (s : Concurrency.Processes Kernel (Pc × Process Kind)) : Prop where
  start : ∀ (i : ℕ) (q : Pc × Process Kind), s.procs[i]? = some q → q.1 = .daemonize .start
  below : ∀ (i : ℕ) (q : Pc × Process Kind) (fd : ℕ) (f : OpenFile Kind),
    s.procs[i]? = some q → q.2.fds fd = some f → f.number < s.kern.opened
  unlocked : s.kern.locked = none

end UbuntuProjects.TestDaemon
