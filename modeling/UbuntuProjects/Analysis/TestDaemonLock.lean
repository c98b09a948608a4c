import UbuntuProjects.Analysis.Daemonize
import UbuntuProjects.Model.TestDaemon

/-!
# One daemon at a time

However many processes are started as the daemon, and whatever their calls return, one of them
at most is past the lock on the lock file. A process is turned away only by another one that
has got the lock and still runs (`one_instance`): the lock is an open file's, no two of the
processes have descriptors of the open file that has it, and so it goes with the process.
-/

set_option autoImplicit false

namespace UbuntuProjects.TestDaemon

open Concurrency (Processes ProcessRun ProcessStep)
open Daemonize (OpenFile Process DaemonizeStep Signal Effect install_of_lowest?)

/-! ## What a step does to the descriptors -/

section Steps

variable {pid n n' : ℕ} {k k' : Kernel} {c c' : Pc} {p p' : Process Kind} {l : Call}
  {new : List (Pc × Process Kind)} {fd : ℕ} {f : OpenFile Kind}

/-- INTERNAL: `syslog`. -/
theorem Syslog.effect (h : Syslog n p n' p') : Effect n p n' p' := by
  cases h with
  | sent => exact .same rfl
  | connected => exact .install n p _ _

/-- INTERNAL: `syslog` closes nothing. -/
theorem Syslog.keeps (h : Syslog n p n' p') (hf : p.fds fd = some f) : p'.fds fd = some f := by
  cases h with
  | sent => exact hf
  | connected hlow => exact install_of_lowest? hlow hf

/-- What a step does to the descriptors. -/
theorem daemonStep_effect (h : DaemonStep pid k (c, p) l k' (c', p') new) :
    Effect k.opened p k'.opened p' := by
  cases h with
  | daemonize h => exact Daemonize.daemonizeStep_effect h
  | opened => exact .install _ p _ _
  | close => exact .close _ p _
  | message h | started _ h | handled _ _ h | waitFailed _ h => exact h.effect
  | exit | leave | killed => exact .ended _ p
  | openFails | granted | busy | flockFails | ftruncate | ftruncateFails | write | sigaction
  | sigactionFails | sigmask | sigmaskFails | create | createFails | sigwait | sigwaitFails
  | pending | discarded => exact .same rfl

/-- Only `daemonize` forks. -/
theorem daemonStep_forks (h : DaemonStep pid k (c, p) l k' (c', p') new) :
    ∀ q ∈ new, q.2.fds = p.fds ∧ (∃ d, c = .daemonize d) ∧ q.1.ended = false ∧
      ∃ d, q.1 = .daemonize d := by
  intro q hq
  cases h with
  | daemonize h =>
    obtain ⟨r, hr, rfl⟩ := List.mem_map.mp hq
    obtain ⟨hfds, hr⟩ := Daemonize.daemonizeStep_child h r hr
    refine ⟨hfds, ⟨_, rfl⟩, ?_, _, rfl⟩
    rcases hr with hr | hr <;> rw [hr] <;> rfl
  | _ => cases hq

/-- A process that has ended takes no step. -/
theorem daemonStep_alive (h : DaemonStep pid k (c, p) l k' (c', p') new) : c.ended = false := by
  cases h with
  | daemonize h => cases h <;> rfl
  | killed hc | pending hc | discarded hc => exact hc
  | _ => rfl

/-- A process that has ended has no descriptors. -/
theorem daemonStep_ended (h : DaemonStep pid k (c, p) l k' (c', p') new)
    (hend : c'.ended = true) : p'.fds = .empty := by
  cases h with
  | @daemonize _ _ c' _ _ _ _ h =>
    cases c' with
    | exited => exact Daemonize.daemonizeStep_exited h
    | _ => cases hend
  | exit | leave | killed => rfl
  | pending hc | discarded hc =>
    rw [hc] at hend
    cases hend
  | _ => cases hend

end Steps

/-! ## Who has the lock -/

/-- The process is before the lock, or has been turned away. -/
def Pc.Before : Pc → Prop
  | .daemonize _ => True
  | .flock _ => True
  | .close _ => True
  | _ => False

/-- The descriptor of the lock file, in `already_running`. -/
def Pc.lockFd : Pc → Option ℕ
  | .flock fd => some fd
  | .close fd => some fd
  | _ => none

section Stages

variable {pid : ℕ} {k k' : Kernel} {c c' : Pc} {p p' : Process Kind} {l : Call}
  {new : List (Pc × Process Kind)}

/-- Nobody comes back before the lock. -/
theorem daemonStep_before (h : DaemonStep pid k (c, p) l k' (c', p') new) (hc : c'.Before) :
    c.Before := by
  cases h with
  | daemonize | opened | busy => trivial
  | pending | discarded => exact hc
  | _ => exact hc.elim

/-- The lock is taken in `flock` only. -/
theorem daemonStep_locked (h : DaemonStep pid k (c, p) l k' (c', p') new) :
    k'.locked = k.locked ∧ l ≠ .flock .granted ∨
      ∃ fd f, c = .flock fd ∧ c' = .ftruncate fd ∧ p' = p ∧ new = [] ∧ p.fds fd = some f ∧
        (k.locked = none ∨ k.locked = some f.number) ∧ k'.locked = some f.number ∧
        l = .flock .granted := by
  cases h with
  | granted hf hfree => exact .inr ⟨_, _, rfl, rfl, rfl, rfl, hf, hfree, rfl, rfl⟩
  | _ => exact .inl ⟨rfl, by intro h; cases h⟩

/-- INTERNAL: behind the lock the descriptors stay until the process ends. -/
theorem daemonStep_past (h : DaemonStep pid k (c, p) l k' (c', p') new) (hc : ¬c.Before)
    (hend : c'.ended = false) {fd : ℕ} {f : OpenFile Kind} (hf : p.fds fd = some f) :
    p'.fds fd = some f := by
  cases h with
  | daemonize | opened | openFails | granted | busy | flockFails | close =>
    exact absurd trivial hc
  | message h | started _ h | handled _ _ h | waitFailed _ h => exact h.keeps hf
  | exit | leave | killed => cases hend
  | ftruncate | ftruncateFails | write | sigaction | sigactionFails | sigmask | sigmaskFails
  | create | createFails | sigwait | sigwaitFails | pending | discarded => exact hf

/-- INTERNAL: the descriptor of the lock file is opened to a file of its own. -/
theorem daemonStep_lockFd {fd : ℕ} (h : DaemonStep pid k (c, p) l k' (c', p') new)
    (hc : c'.lockFd = some fd) :
    c.lockFd = some fd ∧ p'.fds = p.fds ∨
      p'.fds fd = some ⟨.lockFile, k.opened⟩ ∧ k'.opened = k.opened + 1 := by
  cases h with
  | opened =>
    obtain rfl := Option.some.inj hc
    exact .inr ⟨Process.install_self, rfl⟩
  | busy | pending | discarded => exact .inl ⟨hc, rfl⟩
  | _ => cases hc

end Stages

/-- The process `i` has a descriptor of the open file `d`. -/
def Refers (ps : List (Pc × Process Kind)) (i d : ℕ) : Prop :=
  ∃ (q : Pc × Process Kind) (fd : ℕ) (f : OpenFile Kind),
    ps[i]? = some q ∧ q.2.fds fd = some f ∧ f.number = d

/-- The process `i` has the lock. -/
def Holds (s : Processes Kernel (Pc × Process Kind)) (i : ℕ) : Prop :=
  ∃ d, s.kern.locked = some d ∧ Refers s.procs i d

/-- Whose the lock and the open files behind `flock` are. -/
structure Sound (s : Processes Kernel (Pc × Process Kind)) : Prop where
  below : ∀ i d, Refers s.procs i d → d < s.kern.opened
  sole : ∀ i j, Holds s i → Holds s j → i = j
  lockFd : ∀ (i : ℕ) (q : Pc × Process Kind) (fd : ℕ), s.procs[i]? = some q →
    q.1.lockFd = some fd → ∃ f, q.2.fds fd = some f ∧ ∀ j, Refers s.procs j f.number → j = i
  before : ∀ (i : ℕ) (q : Pc × Process Kind), s.procs[i]? = some q → q.1.Before → ¬Holds s i
  ended : ∀ (i : ℕ) (q : Pc × Process Kind), s.procs[i]? = some q → q.1.ended = true →
    q.2.fds = .empty

/-- The same after the kernel has settled. -/
structure Custody (s : Processes Kernel (Pc × Process Kind)) : Prop extends Sound s where
  held : ∀ d, s.kern.locked = some d → ∃ i, Refers s.procs i d

section Steps

variable {k k₁ k' : Kernel} {ps new : List (Pc × Process Kind)} {i j d : ℕ} {c c' : Pc}
  {p p' : Process Kind} {l : Call}

/-- INTERNAL: what refers to a file after a step. -/
theorem refers_stepped (hp : ps[i]? = some (c, p))
    (hs : DaemonStep i k (c, p) l k₁ (c', p') new)
    (h : Refers (ps.set i (c', p') ++ new) j d) :
    Refers ps j d ∨ (j = i ∧ d = k.opened ∧ k.opened < k₁.opened) ∨
      Refers ps i d ∧ ∃ e, c = .daemonize e := by
  obtain ⟨q, fd, f, hq, hf, rfl⟩ := h
  rcases Concurrency.getElem?_stepped hp hq with ⟨rfl, rfl⟩ | ⟨-, hq⟩ | ⟨-, hq⟩
  · rcases (daemonStep_effect hs).own fd f hf with ⟨fd', hf⟩ | ⟨hnew, hlt⟩
    · exact .inl ⟨_, fd', f, hp, hf, rfl⟩
    · exact .inr (.inl ⟨rfl, hnew, hlt⟩)
  · exact .inl ⟨q, fd, f, hq, hf, rfl⟩
  · obtain ⟨hfds, hc, -⟩ := daemonStep_forks hs q (List.mem_of_getElem? hq)
    exact .inr (.inr ⟨⟨_, fd, f, hp, hfds ▸ hf, rfl⟩, hc⟩)

/-- INTERNAL: what another process refers to, it goes on referring to. -/
theorem Refers.other (h : Refers ps j d) (hne : j ≠ i) (q : Pc × Process Kind)
    (new : List (Pc × Process Kind)) : Refers (ps.set i q ++ new) j d := by
  obtain ⟨r, fd, f, hr, hf, hd⟩ := h
  exact ⟨r, fd, f, Concurrency.getElem?_stepped_of_ne hr hne _ _, hf, hd⟩

/-- INTERNAL: the process that takes the lock is the only one with its open file. -/
theorem granted_sole (h : Custody ⟨k, ps⟩) (hp : ps[i]? = some (c, p))
    (hs : DaemonStep i k (c, p) (.flock .granted) k₁ (c', p') new) :
    ∃ fd f, c = .flock fd ∧ c' = .ftruncate fd ∧ p' = p ∧ new = [] ∧ p.fds fd = some f ∧
      k.locked = none ∧ k₁.locked = some f.number ∧
      ∀ m, Refers ps m f.number → m = i := by
  rcases daemonStep_locked hs with ⟨-, hl⟩ | ⟨fd, f, rfl, rfl, rfl, rfl, hf, hfree, hnew, -⟩
  · exact absurd rfl hl
  · obtain ⟨g, hg, hsole⟩ := h.lockFd i _ fd hp rfl
    obtain rfl : f = g := Option.some.inj (hf.symm.trans hg)
    refine ⟨fd, f, rfl, rfl, rfl, rfl, hf, ?_, hnew, hsole⟩
    apply hfree.resolve_right
    intro hown
    exact h.before i _ hp trivial ⟨f.number, hown, _, fd, f, hp, hf, rfl⟩

/-- INTERNAL: after a step a process has the lock only if it has just taken it, or had it. -/
theorem holds_stepped (h : Custody ⟨k, ps⟩) (hp : ps[i]? = some (c, p))
    (hs : DaemonStep i k (c, p) l k₁ (c', p') new)
    (hj : Holds ⟨k₁, ps.set i (c', p') ++ new⟩ j) :
    j = i ∧ l = .flock .granted ∨ l ≠ .flock .granted ∧ Holds ⟨k, ps⟩ j := by
  obtain ⟨d, hd, href⟩ := hj
  by_cases hl : l = .flock .granted
  · subst hl
    obtain ⟨fd, f, rfl, -, -, -, -, -, hnew, hsole⟩ := granted_sole h hp hs
    obtain rfl : f.number = d := Option.some.inj (hnew.symm.trans hd)
    refine .inl ⟨?_, rfl⟩
    rcases refers_stepped hp hs href with href | ⟨hji, -, -⟩ | ⟨-, e, he⟩
    · exact hsole j href
    · exact hji
    · cases he
  · refine .inr ⟨hl, d, ?_⟩
    rcases daemonStep_locked hs with ⟨hlocked, -⟩ | ⟨-, -, -, -, -, -, -, -, -, hgranted⟩
    · have hd' : k.locked = some d := hlocked.symm.trans hd
      refine ⟨hd', ?_⟩
      rcases refers_stepped hp hs href with href | ⟨-, rfl, -⟩ | ⟨href, e, rfl⟩
      · exact href
      · obtain ⟨m, hm⟩ := h.held _ hd'
        exact absurd (h.below m _ hm) (lt_irrefl _)
      · exact absurd ⟨d, hd', href⟩ (h.before i _ hp trivial)
    · exact absurd hgranted hl

/-- INTERNAL: nobody else loses the lock. -/
theorem Holds.other (h : Custody ⟨k, ps⟩) (hp : ps[i]? = some (c, p))
    (hs : DaemonStep i k (c, p) l k₁ (c', p') new) (hne : j ≠ i) (hj : Holds ⟨k, ps⟩ j) :
    Holds ⟨k₁, ps.set i (c', p') ++ new⟩ j := by
  obtain ⟨d, hd, href⟩ := hj
  refine ⟨d, ?_, href.other hne _ _⟩
  rcases daemonStep_locked hs with ⟨hlocked, -⟩ | ⟨-, f, -, -, -, -, -, -, -, rfl⟩
  · exact hlocked.trans hd
  · obtain ⟨-, -, -, -, -, -, -, hnone, -, -⟩ := granted_sole h hp hs
    rw [show k.locked = some d from hd] at hnone
    cases hnone

/-- INTERNAL: the open files behind `flock` after a step. -/
theorem lockFd_stepped (h : Custody ⟨k, ps⟩) (hp : ps[i]? = some (c, p))
    (hs : DaemonStep i k (c, p) l k₁ (c', p') new) {q : Pc × Process Kind} {fd : ℕ}
    (hq : (ps.set i (c', p') ++ new)[j]? = some q) (hfd : q.1.lockFd = some fd) :
    ∃ f, q.2.fds fd = some f ∧
      ∀ m, Refers (ps.set i (c', p') ++ new) m f.number → m = j := by
  rcases Concurrency.getElem?_stepped hp hq with ⟨rfl, rfl⟩ | ⟨hne, hq⟩ | ⟨-, hq⟩
  · rcases daemonStep_lockFd hs hfd with ⟨hold, hfds⟩ | ⟨hnew, -⟩
    · obtain ⟨f, hf, hsole⟩ := h.lockFd j _ fd hp hold
      refine ⟨f, (congrFun hfds fd).trans hf, fun m hm => ?_⟩
      rcases refers_stepped hp hs hm with hm | ⟨hmj, -, -⟩ | ⟨-, e, rfl⟩
      · exact hsole m hm
      · exact hmj
      · cases hold
    · refine ⟨_, hnew, fun m hm => ?_⟩
      rcases refers_stepped hp hs hm with hm | ⟨hmj, -, -⟩ | ⟨hm, -⟩
      · exact absurd (h.below m _ hm) (lt_irrefl _)
      · exact hmj
      · exact absurd (h.below j _ hm) (lt_irrefl _)
  · obtain ⟨f, hf, hsole⟩ := h.lockFd j q fd hq hfd
    refine ⟨f, hf, fun m hm => ?_⟩
    rcases refers_stepped hp hs hm with hm | ⟨-, hnew, -⟩ | ⟨hm, -⟩
    · exact hsole m hm
    · have hlt := h.below j f.number ⟨q, fd, f, hq, hf, rfl⟩
      exact absurd hlt (by rw [hnew]; exact lt_irrefl _)
    · exact absurd (hsole i hm).symm hne
  · obtain ⟨-, -, -, e, he⟩ := daemonStep_forks hs q (List.mem_of_getElem? hq)
    rw [he] at hfd
    cases hfd

/-- What one step keeps, before the kernel settles. -/
theorem sound_step (h : Custody ⟨k, ps⟩) (hp : ps[i]? = some (c, p))
    (hs : DaemonStep i k (c, p) l k₁ (c', p') new) :
    Sound ⟨k₁, ps.set i (c', p') ++ new⟩ := by
  refine ⟨fun j d href => ?_, fun j m hj hm => ?_, fun j q fd hq hfd => ?_,
    fun j q hq hc hj => ?_, fun j q hq hc => ?_⟩
  · have hle := (daemonStep_effect hs).opened_le
    rcases refers_stepped hp hs href with href | ⟨-, rfl, hlt⟩ | ⟨href, -⟩
    · exact (h.below j d href).trans_le hle
    · exact hlt
    · exact (h.below i d href).trans_le hle
  · rcases holds_stepped h hp hs hj with ⟨rfl, hl⟩ | ⟨hl, hj⟩
    · rcases holds_stepped h hp hs hm with ⟨rfl, -⟩ | ⟨hl', -⟩
      · rfl
      · exact absurd hl hl'
    · rcases holds_stepped h hp hs hm with ⟨-, hl'⟩ | ⟨-, hm⟩
      · exact absurd hl' hl
      · exact h.sole j m hj hm
  · exact lockFd_stepped h hp hs hq hfd
  · rcases holds_stepped h hp hs hj with ⟨rfl, rfl⟩ | ⟨-, hold⟩
    · obtain ⟨fd, f, -, rfl, -⟩ := granted_sole h hp hs
      rw [Concurrency.getElem?_stepped_self hp] at hq
      cases hq
      exact hc
    · rcases Concurrency.getElem?_stepped hp hq with ⟨rfl, rfl⟩ | ⟨-, hq⟩ | ⟨hle, -⟩
      · exact h.before j _ hp (daemonStep_before hs hc) hold
      · exact h.before j q hq hc hold
      · obtain ⟨-, -, r, -, -, hr, -, -⟩ := hold
        exact absurd (List.getElem?_eq_some_iff.mp hr).1 (Nat.not_lt_of_le hle)
  · rcases Concurrency.getElem?_stepped hp hq with ⟨rfl, rfl⟩ | ⟨-, hq⟩ | ⟨-, hq⟩
    · exact daemonStep_ended hs hc
    · exact h.ended j q hq hc
    · obtain ⟨-, -, halive, -⟩ := daemonStep_forks hs q (List.mem_of_getElem? hq)
      rw [halive] at hc
      cases hc

/-- INTERNAL: the process that has just been granted the lock has it. -/
theorem holds_granted (h : Custody ⟨k, ps⟩) (hp : ps[i]? = some (c, p))
    (hs : DaemonStep i k (c, p) (.flock .granted) k₁ (c', p') new) :
    Holds ⟨k₁, ps.set i (c', p') ++ new⟩ i := by
  obtain ⟨fd, f, -, -, rfl, -, hf, -, hlocked, -⟩ := granted_sole h hp hs
  exact ⟨f.number, hlocked, _, fd, f, Concurrency.getElem?_stepped_self hp _ _, hf, rfl⟩

/-- INTERNAL: the process keeps the lock until it ends. -/
theorem Holds.self (h : Custody ⟨k, ps⟩) (hp : ps[i]? = some (c, p))
    (hs : DaemonStep i k (c, p) l k₁ (c', p') new) (hend : c'.ended = false)
    (hi : Holds ⟨k, ps⟩ i) : Holds ⟨k₁, ps.set i (c', p') ++ new⟩ i := by
  have hbefore : ¬c.Before := fun hc => h.before i _ hp hc hi
  obtain ⟨d, hd, q, fd, f, hq, hf, rfl⟩ := hi
  obtain rfl := Option.some.inj (hp.symm.trans hq)
  refine ⟨f.number, ?_, _, fd, f, Concurrency.getElem?_stepped_self hp _ _,
    daemonStep_past hs hbefore hend hf, rfl⟩
  rcases daemonStep_locked hs with ⟨hlocked, -⟩ | ⟨_, _, rfl, -⟩
  · exact hlocked.trans hd
  · exact absurd trivial hbefore

/-- Settling keeps it. -/
theorem custody_settles (h : Sound ⟨k₁, ps⟩) (hsettle : Settles ps k₁ k') :
    Custody ⟨k', ps⟩ := by
  cases hsettle with
  | stays hheld =>
    refine ⟨h, fun d hd => ?_⟩
    obtain ⟨i, q, fd, f, hq⟩ := hheld d hd
    exact ⟨i, q, fd, f, hq⟩
  | released hd hnone =>
    have hfree : ∀ j, ¬Holds ⟨{ k₁ with locked := none }, ps⟩ j := by
      rintro j ⟨d, hd, -⟩
      cases hd
    exact ⟨⟨h.below, fun j m hj => absurd hj (hfree j), h.lockFd, fun j _ _ _ => hfree j,
      h.ended⟩, fun d hd => by cases hd⟩

end Steps

section Runs

variable {s₀ s : Processes Kernel (Pc × Process Kind)} {tr : List (ℕ × Call)}

/-- INTERNAL: settling gives nobody the lock. -/
theorem Holds.of_settles {ps : List (Pc × Process Kind)} {k₁ k' : Kernel} {j : ℕ}
    (hsettle : Settles ps k₁ k') (h : Holds ⟨k', ps⟩ j) : Holds ⟨k₁, ps⟩ j := by
  cases hsettle with
  | stays => exact h
  | released =>
    obtain ⟨d, hd, -⟩ := h
    cases hd

/-- INTERNAL: settling takes the lock from nobody who has a descriptor of it. -/
theorem Holds.settles {ps : List (Pc × Process Kind)} {k₁ k' : Kernel} {j : ℕ}
    (h : Holds ⟨k₁, ps⟩ j) (hsettle : Settles ps k₁ k') : Holds ⟨k', ps⟩ j := by
  cases hsettle with
  | stays => exact h
  | released hd hnone =>
    obtain ⟨d', hd', r, fd, f, hr, hf, rfl⟩ := h
    obtain rfl := Option.some.inj (hd.symm.trans hd')
    exact absurd ⟨j, r, fd, f, hr, hf, rfl⟩ hnone

/-- INTERNAL: before the first step. -/
theorem Starts.custody (h : Starts s₀) : Custody s₀ := by
  have hstart := h.start
  have hfree : ∀ j, ¬Holds s₀ j := by
    rintro j ⟨d, hd, -⟩
    rw [h.unlocked] at hd
    cases hd
  refine ⟨⟨?_, fun j m hj => absurd hj (hfree j), fun j q fd hq hfd => ?_,
    fun j _ _ _ => hfree j, fun j q hq hc => ?_⟩, fun d hd => ?_⟩
  · rintro j d ⟨q, fd, f, hq, hf, rfl⟩
    exact h.below j q fd f hq hf
  · rw [hstart j q hq] at hfd
    cases hfd
  · rw [hstart j q hq] at hc
    cases hc
  · rw [h.unlocked] at hd
    cases hd

/-- Whose the lock is, in every run: it has been granted to the process. -/
theorem custody_run (h₀ : Starts s₀) (h : ProcessRun testDaemon Settles s₀ tr s) :
    Custody s ∧ ∀ j, Holds s j → (j, .flock .granted) ∈ tr := by
  refine h.trace_invariant (fun tr s => Custody s ∧ ∀ j, Holds s j → (j, .flock .granted) ∈ tr)
    ⟨h₀.custody, ?_⟩ ?_
  · rintro j ⟨d, hd, -⟩
    rw [h₀.unlocked] at hd
    cases hd
  · rintro tr s ⟨i, l⟩ s' - ⟨hc, hgranted⟩ hs
    obtain ⟨hp, hstep, hsettle⟩ := hs
    refine ⟨custody_settles (sound_step hc hp hstep) hsettle, fun j hj => ?_⟩
    rw [List.mem_append]
    rcases holds_stepped hc hp hstep (hj.of_settles hsettle) with ⟨rfl, rfl⟩ | ⟨-, hold⟩
    · exact .inr (List.mem_singleton_self _)
    · exact .inl (hgranted j hold)

/-- A process that has been granted the lock has it until it ends, whatever else fails. -/
theorem holds_run (h₀ : Starts s₀) (h : ProcessRun testDaemon Settles s₀ tr s) :
    ∀ (i : ℕ) (q : Pc × Process Kind), s.procs[i]? = some q → q.1.ended = false →
      (i, .flock .granted) ∈ tr → Holds s i := by
  refine h.trace_invariant (fun tr s => ∀ (i : ℕ) (q : Pc × Process Kind),
    s.procs[i]? = some q → q.1.ended = false → (i, .flock .granted) ∈ tr → Holds s i)
    (fun i q _ _ hg => absurd hg List.not_mem_nil) ?_
  rintro tr s ⟨i, l⟩ s' hr hI hs j q hq hend hg
  obtain ⟨hc, -⟩ := custody_run h₀ hr
  have hlt := hr.index_lt
  obtain ⟨hp, hstep, hsettle⟩ := hs
  refine Holds.settles ?_ hsettle
  rw [List.mem_append, List.mem_singleton] at hg
  rcases Concurrency.getElem?_stepped hp hq with ⟨rfl, rfl⟩ | ⟨hne, hq⟩ | ⟨hle, -⟩
  · rcases hg with hg | hg
    · exact (hI j _ hp (daemonStep_alive hstep) hg).self hc hp hstep hend
    · obtain rfl := (Prod.mk.inj hg).2
      exact holds_granted hc hp hstep
  · rcases hg with hg | hg
    · exact (hI j q hq hend hg).other hc hp hstep hne
    · exact absurd (Prod.mk.inj hg).1 hne
  · rcases hg with hg | hg
    · exact absurd (hlt _ hg) (Nat.not_lt_of_le hle)
    · obtain rfl := (Prod.mk.inj hg).1
      exact absurd (List.getElem?_eq_some_iff.mp hp).1 (Nat.not_lt_of_le hle)

/-- **One daemon at a time.** However many processes are started as the daemon, in whatever
order they take their steps, and whichever calls fail or signals arrive, no two of those that
have not ended have been granted the lock. A process that is turned away is turned away by
another one: it has the lock and has not ended. -/
theorem one_instance (h₀ : Starts s₀) (h : ProcessRun testDaemon Settles s₀ tr s) :
    (∀ (i j : ℕ) (q r : Pc × Process Kind), s.procs[i]? = some q → s.procs[j]? = some r →
      (i, .flock .granted) ∈ tr → (j, .flock .granted) ∈ tr → q.1.ended = false →
      r.1.ended = false → i = j) ∧
    ∀ i s', ProcessStep testDaemon Settles s (i, .flock .busy) s' →
      ∃ j r, j ≠ i ∧ s.procs[j]? = some r ∧ r.1.ended = false ∧
        (j, .flock .granted) ∈ tr ∧ Holds s j := by
  obtain ⟨hc, hgranted⟩ := custody_run h₀ h
  refine ⟨fun i j q r hq hr hi hj hq' hr' => ?_, fun i s' hs => ?_⟩
  · exact hc.sole i j (holds_run h₀ h i q hq hq' hi) (holds_run h₀ h j r hr hr' hj)
  · obtain ⟨hp, hstep, -⟩ := hs
    cases hstep with
    | busy hf hlocked hne =>
      obtain ⟨j, hj⟩ := hc.held _ hlocked
      have hholds : Holds _ j := ⟨_, hlocked, hj⟩
      obtain ⟨r, fd, f, hr, hf', -⟩ := hj
      refine ⟨j, r, ?_, hr, ?_, hgranted j hholds, hholds⟩
      · rintro rfl
        exact hc.before j _ hp trivial hholds
      · by_contra hend
        rw [hc.ended j r hr (by simpa using hend)] at hf'
        cases hf'

/-- A process that is started with four descriptors at most. -/
def launched : Process Kind where
  fds := .empty
  limits := ⟨4, some 4, by simp⟩
  umask := 18
  cwd := "/root"
  session := 0
  terminal := true
  ignored := fun _ => false
  blocked := fun _ => false
  pending := fun _ => false

/-- So many of them. -/
def launchedTimes (n : ℕ) : Processes Kernel (Pc × Process Kind) :=
  ⟨⟨0, none, none⟩, List.replicate n (.daemonize .start, launched)⟩

/-- INTERNAL: they are started as the daemon. -/
theorem launchedTimes_starts (n : ℕ) : Starts (launchedTimes n) := by
  have honly : ∀ (i : ℕ) (q : Pc × Process Kind), (launchedTimes n).procs[i]? = some q →
      q = (.daemonize .start, launched) := by
    intro i q hq
    exact List.eq_of_mem_replicate (List.mem_of_getElem? hq)
  refine ⟨fun i q hq => ?_, fun i q fd f hq hf => ?_, rfl⟩
  · rw [honly i q hq]
  · rw [honly i q hq] at hf
    cases hf

/-- INTERNAL: nobody has the lock. -/
theorem stays_unlocked {ps : List (Pc × Process Kind)} {k : Kernel} (h : k.locked = none) :
    Settles ps k k := by
  refine .stays k fun d hd => ?_
  rw [h] at hd
  cases hd

/-- INTERNAL: the process `i` has the lock. -/
theorem stays_referred {ps : List (Pc × Process Kind)} {k : Kernel} (i fd : ℕ)
    {q : Pc × Process Kind} {f : OpenFile Kind} (hq : ps[i]? = some q)
    (hf : q.2.fds fd = some f) (h : k.locked = some f.number) : Settles ps k k := by
  refine .stays k fun d hd => ?_
  obtain rfl := Option.some.inj (h.symm.trans hd)
  exact ⟨i, q, fd, f, hq, hf, rfl⟩

/-- INTERNAL: the processes run `daemonize`, while nobody has the lock. -/
theorem embeds_testDaemon (lockFile : Option (List UInt8)) :
    Daemonize.Embeds testDaemon Settles .devNull (fun q => (.daemonize q.1, q.2))
      fun n _ => ⟨n, none, lockFile⟩ :=
  ⟨fun _ hs => ⟨_, _, .daemonize _ hs, fun _ => stays_unlocked rfl⟩⟩

/-- The first of two takes the lock, the second one is turned away. -/
theorem one_instance_second :
    ∃ (tr : List (ℕ × Call)) (s s' : Processes Kernel (Pc × Process Kind)),
      ProcessRun testDaemon Settles (launchedTimes 2) tr s ∧
        ProcessStep testDaemon Settles s (5, .flock .busy) s' ∧
        ∃ j r, j ≠ 5 ∧ s.procs[j]? = some r ∧ r.1.ended = false ∧
          (j, .flock .granted) ∈ tr ∧ Holds s j := by
  have h₀ : ProcessRun testDaemon Settles (launchedTimes 2) [] _ := .nil
  obtain ⟨_, h₁⟩ := Daemonize.daemonize_succeeds (embeds_testDaemon none) (i := 0) ⟨_, h₀⟩ rfl
    (show 3 ≤ 4 by decide)
  have h₂ := h₁.snoc 3 rfl (.opened _ (show Daemonize.Process.lowest? _ = some 3 from rfl))
    (stays_unlocked rfl)
  obtain ⟨_, h₃⟩ := Daemonize.daemonize_succeeds (embeds_testDaemon (some [])) (i := 1) ⟨_, h₂⟩
    rfl (show 3 ≤ 4 by decide)
  have h₄ := h₃.snoc 5 rfl (.opened _ (show Daemonize.Process.lowest? _ = some 3 from rfl))
    (stays_unlocked rfl)
  have h₅ := h₄.snoc 3 rfl (.granted _ rfl (.inl rfl)) (stays_referred 3 3 rfl rfl rfl)
  have hbusy := h₅.next 5 rfl (.busy _ rfl rfl (show 1 ≠ 3 by decide))
    (stays_referred 3 3 rfl rfl rfl)
  exact ⟨_, _, _, h₅, hbusy, (one_instance (launchedTimes_starts 2) h₅).2 5 _ hbusy⟩

/-- INTERNAL: a run of one daemon, which comes to wait for signals. -/
theorem one_serves :
    ∃ (tr : List (ℕ × Call)) (q₀ q₁ : Pc × Process Kind) (p : Process Kind),
      ProcessRun testDaemon Settles (launchedTimes 1) tr
        ⟨⟨2, some 1, some (pidText 2)⟩, [q₀, q₁, (.serving false .sigwait, p)]⟩ ∧
        q₀.2.fds = .empty ∧ q₁.2.fds = .empty ∧ p.fds 3 = some ⟨.lockFile, 1⟩ ∧
        p.blocked .term = true ∧ p.ignored .term = false ∧ (2, .write 2) ∈ tr := by
  have h₀ : ProcessRun testDaemon Settles (launchedTimes 1) [] _ := .nil
  obtain ⟨_, h₁⟩ := Daemonize.daemonize_succeeds (embeds_testDaemon none) (i := 0) ⟨_, h₀⟩ rfl
    (show 3 ≤ 4 by decide)
  have h₂ := h₁.snoc 2 rfl (.opened _ (show Daemonize.Process.lowest? _ = some 3 from rfl))
    (stays_unlocked rfl)
  have h₃ := h₂.snoc 2 rfl (.granted _ rfl (.inl rfl)) (stays_referred 2 3 rfl rfl rfl)
  have h₄ := h₃.snoc 2 rfl (.ftruncate _ _ _) (stays_referred 2 3 rfl rfl rfl)
  have h₅ := h₄.snoc 2 rfl (.write _ _ _ (show 2 ≤ (pidText 2).length by decide))
    (stays_referred 2 3 rfl rfl rfl)
  have h₆ := h₅.snoc 2 rfl (.sigaction _ _) (stays_referred 2 3 rfl rfl rfl)
  have h₇ := h₆.snoc 2 rfl (.sigmask _ _) (stays_referred 2 3 rfl rfl rfl)
  have h₈ := h₇.snoc 2 rfl (.create _ _) (stays_referred 2 3 rfl rfl rfl)
  exact ⟨_, _, _, _, h₈, rfl, rfl, rfl, rfl, rfl, by simp⟩

end Runs

end UbuntuProjects.TestDaemon
