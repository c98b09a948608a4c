import UbuntuProjects.Model.Daemonize
import UbuntuProjects.Model.Server

/-!
# The program `ruptimed`

The model of c_projects/sockets/server.c as a whole: `main` becomes a daemon, tries the
addresses that `getaddrinfo` has found with `initserver`, and enters `serve` with the first
socket that listens. The control flow of `serve` is the one of `UbuntuProjects.Model.Server`;
here its calls also open, copy and close descriptors. Every call may fail.

A process has, beside what the kernel keeps for it, the descriptor of its connection to the
logger, which the first `syslog` opens and `execl` closes.
-/

set_option autoImplicit false

namespace UbuntuProjects.Ruptimed

open Concurrency (ProcessProgram)
open Daemonize (OpenFile Process DaemonizeStep)

/-- What the descriptors of the processes are open to. -/
inductive Kind where
  | inherited
  | devNull
  | socket
  | connection
  | log
  deriving DecidableEq, Repr

/-- What the processes share: how many files have been opened, the sockets that listen, and
what `fork` and `waitpid` see of the table of processes. -/
structure Kernel where
  opened : ℕ
  listening : List ℕ
  table : List Server.Pc

/-! ## `initserver` -/

/-- The types of a socket. -/
inductive SocketType where
  | stream
  | seqpacket
  | other (n : ℕ)
  deriving DecidableEq, Repr

/-- The types that are listened on.
SRCLINE: server.c:26 -/
def SocketType.listens : SocketType → Bool
  | .stream => true
  | .seqpacket => true
  | .other _ => false

inductive InitCall where
  | socket (fd : Option ℕ)
  | bind (ok : Bool)
  | listen (ok : Bool)
  | close (fd : ℕ)
  deriving DecidableEq, Repr

/-- Where a process is in `initserver`; -1 is `none`. -/
inductive InitPc where
  | socket
  | bind (fd : ℕ)
  | listen (fd : ℕ)
  | errout (fd : ℕ)
  | returned (fd : Option ℕ)
  deriving DecidableEq, Repr

/-- The steps of `initserver`.
SRCLINE: server.c:17-37, server.h:19-40 -/
inductive InitserverStep (type : SocketType) :
    Kernel → InitPc × Process Kind → InitCall → Kernel → InitPc × Process Kind → Prop
  | socket (k : Kernel) {p : Process Kind} {fd : ℕ} : p.lowest? = some fd →
      InitserverStep type k (.socket, p) (.socket (some fd)) { k with opened := k.opened + 1 }
        (.bind fd, p.install fd ⟨.socket, k.opened⟩)
  | socketFails (k : Kernel) (p : Process Kind) :
      InitserverStep type k (.socket, p) (.socket none) k (.returned none, p)
  | bind (k : Kernel) (p : Process Kind) (fd : ℕ) : type.listens = true →
      InitserverStep type k (.bind fd, p) (.bind true) k (.listen fd, p)
  | bindOnly (k : Kernel) (p : Process Kind) (fd : ℕ) : type.listens = false →
      InitserverStep type k (.bind fd, p) (.bind true) k (.returned (some fd), p)
  | bindFails (k : Kernel) (p : Process Kind) (fd : ℕ) :
      InitserverStep type k (.bind fd, p) (.bind false) k (.errout fd, p)
  | listen (k : Kernel) {p : Process Kind} {fd : ℕ} {f : OpenFile Kind} : p.fds fd = some f →
      InitserverStep type k (.listen fd, p) (.listen true)
        { k with listening := f.number :: k.listening } (.returned (some fd), p)
  | listenFails (k : Kernel) (p : Process Kind) (fd : ℕ) :
      InitserverStep type k (.listen fd, p) (.listen false) k (.errout fd, p)
  | close (k : Kernel) (p : Process Kind) (fd : ℕ) :
      InitserverStep type k (.errout fd, p) (.close fd) k (.returned none, p.close fd)

/-! ## The descriptors in `serve` -/

/-- `syslog`, by a process whose connection to the logger is at `log`: it connects if it is
not connected, and may fail to. -/
inductive Syslog (log : Option ℕ) :
    ℕ → Process Kind → ℕ → Process Kind → Option ℕ → Prop
  | sent (n : ℕ) (p : Process Kind) : Syslog log n p n p log
  | connected (n : ℕ) {p : Process Kind} {fd : ℕ} : log = none → p.lowest? = some fd →
      Syslog log n p (n + 1) (p.install fd ⟨.log, n⟩) (some fd)

/-- The connection to the logger does not outlive `execl`. -/
def afterExecl (p : Process Kind) : Option ℕ → Process Kind
  | none => p
  | some fd => p.close fd

/-- What the calls of `serve` do to the descriptors of a process and to its connection to the
logger. -/
inductive ServeDescriptors (sockfd : ℕ) :
    Kernel → Server.Pc → Process Kind → Option ℕ → Server.Call →
      Kernel → Process Kind → Option ℕ → Prop
  | accept (k : Kernel) {p : Process Kind} (log : Option ℕ) {clfd : ℕ} {f : OpenFile Kind} :
      p.fds sockfd = some f → f.number ∈ k.listening → p.lowest? = some clfd →
      ServeDescriptors sockfd k .accepting p log (.accept (some clfd))
        { k with opened := k.opened + 1 } (p.install clfd ⟨.connection, k.opened⟩) log
  | acceptFails (k : Kernel) (p : Process Kind) (log : Option ℕ) :
      ServeDescriptors sockfd k .accepting p log (.accept none) k p log
  | fork (k : Kernel) (c : Server.Pc) (p : Process Kind) (log r : Option ℕ) :
      ServeDescriptors sockfd k c p log (.fork r) k p log
  | dup2 (k : Kernel) {c : Server.Pc} {p : Process Kind} (log : Option ℕ) {clfd fd : ℕ}
      {f : OpenFile Kind} : c = .dupOut clfd ∨ c = .dupErr clfd → p.fds clfd = some f →
      ServeDescriptors sockfd k c p log (.dup2 fd true) k (p.install fd f) log
  | dup2Fails (k : Kernel) (c : Server.Pc) (p : Process Kind) (log : Option ℕ) (fd : ℕ) :
      ServeDescriptors sockfd k c p log (.dup2 fd false) k p log
  | close (k : Kernel) (c : Server.Pc) (p : Process Kind) (log : Option ℕ) (fd : ℕ) :
      ServeDescriptors sockfd k c p log (.close fd) k (p.close fd) log
  | execl (k : Kernel) (c : Server.Pc) (p : Process Kind) (log : Option ℕ) :
      ServeDescriptors sockfd k c p log (.execl true) k (afterExecl p log) none
  | execlFails (k : Kernel) (c : Server.Pc) (p : Process Kind) (log : Option ℕ) :
      ServeDescriptors sockfd k c p log (.execl false) k p log
  | syslog (k : Kernel) (c : Server.Pc) {p p' : Process Kind} {log log' : Option ℕ} {n' : ℕ}
      (message : Server.Log) : Syslog log k.opened p n' p' log' →
      ServeDescriptors sockfd k c p log (.syslog message) { k with opened := n' } p' log'
  | exit (k : Kernel) (c : Server.Pc) (p : Process Kind) (log : Option ℕ) (status : ℤ) :
      ServeDescriptors sockfd k c p log (.exit status) k p.ended none
  | waitpid (k : Kernel) (c : Server.Pc) (p : Process Kind) (log : Option ℕ) (pid : ℕ)
      (ok : Bool) : ServeDescriptors sockfd k c p log (.waitpid pid ok) k p log

/-! ## `main` -/

inductive Call where
  /-- the checks and calls in front of `daemonize` -/
  | main (ok : Bool)
  | daemonize (call : Daemonize.Call)
  /-- how many addresses have been found -/
  | getaddrinfo (n : Option ℕ)
  | nextAddress
  | initserver (call : InitCall)
  | returned
  | serve (call : Server.Call)
  | syslog
  | exit (status : ℤ)
  deriving DecidableEq, Repr

/-- Where a process is. -/
inductive Pc where
  | start
  | daemonize (c : Daemonize.Pc)
  /-- in the loop over the addresses, with so many left -/
  | addresses (n : ℕ)
  | initserver (n : ℕ) (c : InitPc)
  | serve (sockfd : ℕ) (c : Server.Pc)
  | failed
  | exiting (status : ℤ)
  | exited (status : ℤ)
  deriving DecidableEq, Repr

structure Proc where
  pc : Pc
  p : Process Kind
  log : Option ℕ

/-- What `waitpid` sees of a process. -/
def Pc.seen : Pc → Server.Pc
  | .serve _ c => c
  | .daemonize (.exited status) => .exited status
  | .exited status => .exited status
  | _ => .exiting 1

/-- The steps of one process.
SRCLINE: server.c:72-110 -/
inductive RuptimedStep (pid : ℕ) :
    Kernel → Proc → Call → Kernel → Proc → List Proc → Prop
  | refused (k : Kernel) (p : Process Kind) (log : Option ℕ) :
      RuptimedStep pid k ⟨.start, p, log⟩ (.main false) k ⟨.exiting 1, p, log⟩ []
  | main (k : Kernel) (p : Process Kind) (log : Option ℕ) :
      RuptimedStep pid k ⟨.start, p, log⟩ (.main true) k ⟨.daemonize .start, p, log⟩ []
  | daemonize (k : Kernel) {n' : ℕ} {c c' : Daemonize.Pc} {p p' : Process Kind}
      (log : Option ℕ) {call : Daemonize.Call} {new : List (Daemonize.Pc × Process Kind)} :
      DaemonizeStep .devNull pid k.opened (c, p) call n' (c', p') new →
      RuptimedStep pid k ⟨.daemonize c, p, log⟩ (.daemonize call) { k with opened := n' }
        ⟨.daemonize c', p', log⟩ (new.map fun q => ⟨.daemonize q.1, q.2, log⟩)
  | getaddrinfo (k : Kernel) (p : Process Kind) (log : Option ℕ) (n : ℕ) :
      RuptimedStep pid k ⟨.daemonize .done, p, log⟩ (.getaddrinfo (some n)) k
        ⟨.addresses n, p, log⟩ []
  | getaddrinfoFails (k : Kernel) (p : Process Kind) (log : Option ℕ) :
      RuptimedStep pid k ⟨.daemonize .done, p, log⟩ (.getaddrinfo none) k ⟨.failed, p, log⟩ []
  | nextAddress (k : Kernel) (p : Process Kind) (log : Option ℕ) (n : ℕ) :
      RuptimedStep pid k ⟨.addresses (n + 1), p, log⟩ .nextAddress k
        ⟨.initserver n .socket, p, log⟩ []
  | noAddress (k : Kernel) (p : Process Kind) (log : Option ℕ) :
      RuptimedStep pid k ⟨.addresses 0, p, log⟩ .nextAddress k ⟨.exiting 1, p, log⟩ []
  | initserver {k k' : Kernel} {c c' : InitPc} {p p' : Process Kind} (log : Option ℕ) (n : ℕ)
      {call : InitCall} : InitserverStep .stream k (c, p) call k' (c', p') →
      RuptimedStep pid k ⟨.initserver n c, p, log⟩ (.initserver call) k'
        ⟨.initserver n c', p', log⟩ []
  | initserverFailed (k : Kernel) (p : Process Kind) (log : Option ℕ) (n : ℕ) :
      RuptimedStep pid k ⟨.initserver n (.returned none), p, log⟩ .returned k
        ⟨.addresses n, p, log⟩ []
  | serves (k : Kernel) (p : Process Kind) (log : Option ℕ) (n sockfd : ℕ) :
      RuptimedStep pid k ⟨.initserver n (.returned (some sockfd)), p, log⟩ .returned k
        ⟨.serve sockfd .accepting, p, log⟩ []
  | serve {k k' : Kernel} {sockfd : ℕ} {c c' : Server.Pc} {p p' : Process Kind}
      {log log' : Option ℕ} {call : Server.Call} {new : List Server.Pc} :
      Server.serve k.table c call c' new →
      ServeDescriptors sockfd k c p log call k' p' log' →
      RuptimedStep pid k ⟨.serve sockfd c, p, log⟩ (.serve call) k' ⟨.serve sockfd c', p', log'⟩
        (new.map fun d => ⟨.serve sockfd d, p'.forked, log'⟩)
  | failed (k : Kernel) {p p' : Process Kind} {log log' : Option ℕ} {n' : ℕ} :
      Syslog log k.opened p n' p' log' →
      RuptimedStep pid k ⟨.failed, p, log⟩ .syslog { k with opened := n' }
        ⟨.exiting 1, p', log'⟩ []
  | exit (k : Kernel) (p : Process Kind) (log : Option ℕ) (status : ℤ) :
      RuptimedStep pid k ⟨.exiting status, p, log⟩ (.exit status) k
        ⟨.exited status, p.ended, none⟩ []

/-- The program. -/
def ruptimed : ProcessProgram Kernel Proc Call :=
  fun pid k q l k' q' new => RuptimedStep pid k q l k' q' new

/-- The kernel looks at the table of processes again. -/
def Settles (ps : List Proc) (k k' : Kernel) : Prop :=
  k' = { k with table := ps.map fun q => q.pc.seen }

/-- One process that is started as `ruptimed`. -/
structure Starts (p₀ : Process Kind) (s : Concurrency.Processes Kernel Proc) : Prop where
  procs : s.procs = [⟨.start, p₀, none⟩]
  below : ∀ (fd : ℕ) (f : OpenFile Kind), p₀.fds fd = some f → f.number < s.kern.opened
  table : s.kern.table.length = 1

end UbuntuProjects.Ruptimed
