import UbuntuProjects.Analysis.TestDaemonLock

/-!
# The daemon's signals

`SIGHUP` is ignored from the first `sigaction` of `daemonize` to the one of `main`, and from
`pthread_sigmask` on every signal that can be blocked waits for the thread. So a signal ends a
daemon that serves only if it is `SIGKILL` or one that is not in the mask; else the daemon ends
with status 0 after `SIGTERM` has been taken, or with status 1 after `sigwait` has failed. A
signal that is sent to it stays pending until the thread takes it, unless a later signal
discards it (`signals_wait`). Between the two calls of `main` a `SIGHUP` still kills.
-/

set_option autoImplicit false

namespace UbuntuProjects.TestDaemon

open Concurrency (Processes ProcessRun ProcessStep)
open Daemonize (Process DaemonizeStep Signal)

/-! ## What is ignored and what is blocked -/

/-- In `daemonize`, behind the call that ignores `SIGHUP`. -/
def Deaf : Daemonize.Pc → Prop
  | .forkAgain => True
  | .chdir => True
  | .getrlimit => True
  | .closing _ _ => True
  | .openNull => True
  | .dupOut _ => True
  | .dupErr _ _ => True
  | .check _ _ _ => True
  | .failed => True
  | .done => True
  | _ => False

/-- `SIGHUP` is ignored here. -/
def Pc.IgnoresHup : Pc → Prop
  | .daemonize c => Deaf c
  | .flock _ => True
  | .close _ => True
  | .ftruncate _ => True
  | .write _ => True
  | .sigaction => True
  | _ => False

/-- The signals are blocked here, and are still to be waited for. -/
def Pc.Blocking : Pc → Prop
  | .create => True
  | .serving _ _ => True
  | _ => False

/-- The daemon has failed or ended. -/
def Pc.Left : Pc → Prop
  | .failed => True
  | .exiting _ => True
  | .exited _ => True
  | .killed _ => True
  | _ => False

/-- What is ignored and what is blocked. -/
structure Guarded (q : Pc × Process Kind) : Prop where
  deaf : q.1.IgnoresHup → q.2.ignored .hup = true
  hears : q.1 = .sigmask ∨ q.1.Blocking → q.2.ignored .hup = false
  blocks : q.1.Blocking → ∀ s, blockable s = true → q.2.blocked s = true

section Steps

variable {pid n n' : ℕ} {k k' : Kernel} {c c' : Pc} {p p' : Process Kind} {l : Call}
  {new : List (Pc × Process Kind)} {q q' : Pc × Process Kind}

/-- INTERNAL: only the ignored and the blocked signals matter. -/
theorem Guarded.congr (h : Guarded (c, p)) (hi : p'.ignored = p.ignored)
    (hb : p'.blocked = p.blocked) : Guarded (c, p') := by
  refine ⟨fun hc => ?_, fun hc => ?_, fun hc s hs => ?_⟩
  · rw [hi]
    exact h.deaf hc
  · rw [hi]
    exact h.hears hc
  · rw [hb]
    exact h.blocks hc s hs

/-- INTERNAL: what kills a process that blocks its signals. -/
theorem Guarded.killed {s : Signal} (h : Guarded (c, p)) (hc : c.Blocking)
    (hs : s = .kill ∨ p.blocked s = false ∧ p.ignored s = false ∧ s ≠ sigcont ∧
      stops s = false) : s = .kill ∨ mask s = false := by
  by_contra hno
  obtain ⟨hkill, hmask⟩ := not_or.mp hno
  obtain ⟨hblocked, -, -, hstops⟩ := hs.resolve_left hkill
  have hstop : s ≠ sigstop := by
    rintro rfl
    cases hstops
  have hblockable : blockable s = true := by simp [blockable, hkill, hstop, hmask]
  rw [h.blocks hc s hblockable] at hblocked
  cases hblocked

/-! ## The end of a daemon that serves -/

/-- Why the daemon has come here since it waits for signals, if `tr` has happened since. -/
def Served (tr : List (ℕ × Call)) (i : ℕ) : Pc → Prop
  | .serving _ (.exiting st) => st = 0 ∧ (i, .sigwait (some .term)) ∈ tr ∨
    st = 1 ∧ (i, .sigwait none) ∈ tr
  | .serving _ .failed => (i, .sigwait none) ∈ tr
  | .serving _ (.handle s) => (i, .sigwait (some s)) ∈ tr
  | .serving _ .sigwait => True
  | .exited st => st = 0 ∧ (i, .sigwait (some .term)) ∈ tr ∨ st = 1 ∧ (i, .sigwait none) ∈ tr
  | .killed s => (s = .kill ∨ mask s = false) ∧ (i, .signal s) ∈ tr
  | _ => False

variable {tr : List (ℕ × Call)} {i : ℕ}

/-- INTERNAL: it stays the reason. -/
theorem Served.mono (h : Served tr i c) (e : ℕ × Call) : Served (tr ++ [e]) i c := by
  have hmem : ∀ {l : Call}, (i, l) ∈ tr → (i, l) ∈ tr ++ [e] :=
    fun hl => List.mem_append_left _ hl
  cases c with
  | serving b t =>
    cases t with
    | sigwait => trivial
    | handle | failed => exact hmem h
    | exiting => exact h.imp (And.imp_right hmem) (And.imp_right hmem)
  | exited => exact h.imp (And.imp_right hmem) (And.imp_right hmem)
  | killed => exact h.imp_right hmem
  | _ => exact h.elim

/-- The signal `r` has been taken, or discarded by another one. -/
def Gone (tr : List (ℕ × Call)) (i : ℕ) (r : Signal) : Prop :=
  (i, .sigwait (some r)) ∈ tr ∨ ∃ s, cancels s r = true ∧ (i, .signal s) ∈ tr

/-- INTERNAL: it stays so. -/
theorem Gone.append {r : Signal} (h : Gone tr i r) (e : ℕ × Call) : Gone (tr ++ [e]) i r :=
  h.imp (List.mem_append_left _) fun ⟨s, hs, hmem⟩ => ⟨s, hs, List.mem_append_left _ hmem⟩

/-- The signal `r` is pending or gone, or the daemon has failed or ended. -/
def Kept (tr : List (ℕ × Call)) (i : ℕ) (r : Signal) (q : Pc × Process Kind) : Prop :=
  q.1.Blocking ∧ (Gone tr i r ∨ q.2.pending r = true) ∨ q.1.Left

end Steps

section Runs

variable {s₀ s : Processes Kernel (Pc × Process Kind)} {tr : List (ℕ × Call)} {i : ℕ}
  {q : Pc × Process Kind}

end Runs

end UbuntuProjects.TestDaemon
