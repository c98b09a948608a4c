import UbuntuProjects.Model.Daemonize

/-!
# What `daemonize` leaves to the daemon

Whatever its calls return, `daemonize` returns in one process at most, the child of a child of
the caller; everybody else has exited. It returns with 0, 1 and 2 open to one and the same
/dev/null and all other descriptors below the limit closed, in a session without a terminal
that it cannot give one, as its leader is another process (`daemonize_returns`). The numbers
of the descriptors are wrong only if one of the calls for them has failed.
-/

set_option autoImplicit false

namespace UbuntuProjects.Daemonize

open Concurrency (ProcessProgram Processes ProcessRun ProcessStep)
open Memory (Descriptors)

variable {κ : Type}

/-! ## One process -/

/-- The descriptors of the caller when those below `limit` have been closed. -/
def cleared (fds : Descriptors (OpenFile κ)) (limit : ℕ) : Descriptors (OpenFile κ) :=
  fun fd => if fd < limit then none else fds fd

/-- The descriptors at the end: 0, 1 and 2 are open to `f`. -/
def standard (fds : Descriptors (OpenFile κ)) (limit : ℕ) (f : OpenFile κ) :
    Descriptors (OpenFile κ) :=
  (((cleared fds limit).install 0 f).install 1 f).install 2 f

/-- What the last of the processes has of its own, if `leader` has forked it. -/
structure Detached (p₀ : Process κ) (leader : ℕ) (p : Process κ) : Prop where
  limits : p.limits = p₀.limits
  umask : p.umask = 0
  session : p.session = leader
  terminal : p.terminal = false
  ignored : p.ignored = Function.update p₀.ignored .hup true

/-- What is known of the process `pid` in `daemonize`, if `p₀` is the caller and `leader` has
forked the process. -/
def Knows (devNull : κ) (p₀ : Process κ) (leader pid : ℕ) : Pc → Process κ → Prop
  | .start, p => p.limits = p₀.limits ∧ p.ignored = p₀.ignored ∧ p.fds = p₀.fds
  | .fork, p =>
    p.limits = p₀.limits ∧ p.ignored = p₀.ignored ∧ p.fds = p₀.fds ∧ p.umask = 0
  | .setsid, p =>
    p.limits = p₀.limits ∧ p.ignored = p₀.ignored ∧ p.fds = p₀.fds ∧ p.umask = 0
  | .sigaction, p =>
    p.limits = p₀.limits ∧ p.ignored = p₀.ignored ∧ p.fds = p₀.fds ∧ p.umask = 0 ∧
      p.session = pid ∧ p.terminal = false
  | .forkAgain, p =>
    p.limits = p₀.limits ∧ p.ignored = Function.update p₀.ignored .hup true ∧
      p.fds = p₀.fds ∧ p.umask = 0 ∧ p.session = pid ∧ p.terminal = false
  | .chdir, p => Detached p₀ leader p ∧ p.fds = p₀.fds
  | .getrlimit, p => Detached p₀ leader p ∧ p.fds = p₀.fds ∧ p.cwd = "/"
  | .closing limit i, p =>
    Detached p₀ leader p ∧ p.cwd = "/" ∧ limit = p₀.limits.closeLimit ∧ i ≤ limit ∧
      p.fds = cleared p₀.fds i
  | .openNull, p =>
    Detached p₀ leader p ∧ p.cwd = "/" ∧ p.fds = cleared p₀.fds p₀.limits.closeLimit
  | .dupOut fd0, p =>
    Detached p₀ leader p ∧ p.cwd = "/" ∧
      (fd0 = none ∧ p.fds = cleared p₀.fds p₀.limits.closeLimit ∨
        ∃ f : OpenFile κ, f.kind = devNull ∧ fd0 = some 0 ∧
          p.fds = (cleared p₀.fds p₀.limits.closeLimit).install 0 f)
  | .dupErr fd0 fd1, p =>
    Detached p₀ leader p ∧ p.cwd = "/" ∧
      (fd1 = none ∨ ∃ f : OpenFile κ, f.kind = devNull ∧ fd0 = some 0 ∧ fd1 = some 1 ∧
        p.fds = ((cleared p₀.fds p₀.limits.closeLimit).install 0 f).install 1 f)
  | .check fd0 fd1 fd2, p =>
    Detached p₀ leader p ∧ p.cwd = "/" ∧
      ((fd1 = none ∨ fd2 = none) ∨ ∃ f : OpenFile κ, f.kind = devNull ∧ fd0 = some 0 ∧
        fd1 = some 1 ∧ fd2 = some 2 ∧ p.fds = standard p₀.fds p₀.limits.closeLimit f)
  | .done, p =>
    Detached p₀ leader p ∧ p.cwd = "/" ∧ ∃ f : OpenFile κ, f.kind = devNull ∧
      p.fds = standard p₀.fds p₀.limits.closeLimit f
  | _, _ => True

section Descriptors

variable {p₀ : Process κ} {fds : Descriptors (OpenFile κ)} {f : OpenFile κ} {limit m fd : ℕ}

/-- INTERNAL: a low descriptor that may be opened has been closed. -/
theorem lt_closeLimit (l : Limits) (hm : m < l.soft) (hlow : m ≤ 2) : m < l.closeLimit := by
  unfold Limits.closeLimit
  cases hhard : l.hard with
  | none => simp only [Option.getD_none]; omega
  | some h =>
    have hle := l.le h hhard
    simp only [Option.getD_some]
    omega

/-- INTERNAL: closing one more descriptor. -/
theorem cleared_close (fds : Descriptors (OpenFile κ)) (i : ℕ) :
    (cleared fds i).close i = cleared fds (i + 1) := by
  funext fd
  by_cases hfd : fd = i
  · subst hfd
    rw [Descriptors.close_self, cleared, if_pos (Nat.lt_succ_self fd)]
  · rw [Descriptors.close_of_ne hfd, cleared, cleared]
    have hiff : fd < i ↔ fd < i + 1 := by omega
    simp only [hiff]

/-- INTERNAL: before the loop. -/
theorem cleared_zero (fds : Descriptors (OpenFile κ)) : cleared fds 0 = fds := by
  funext fd
  exact if_neg (Nat.not_lt_zero fd)

/-- INTERNAL: the first descriptor opened is 0. -/
theorem lowest?_cleared {l : Limits} (h : (cleared fds l.closeLimit).lowest? l.soft = some fd) :
    fd = 0 := by
  have hlt := (Descriptors.lowest?_eq_some_iff.mp h).1
  apply Descriptors.lowest?_eq_gap h
  · intro j hj
    omega
  · exact if_pos (lt_closeLimit l (by omega) (by omega))

/-- INTERNAL: the second one is 1. -/
theorem lowest?_one {l : Limits}
    (h : ((cleared fds l.closeLimit).install 0 f).lowest? l.soft = some fd) : fd = 1 := by
  obtain ⟨hlt, hfree, -⟩ := Descriptors.lowest?_eq_some_iff.mp h
  have hpos : fd ≠ 0 := by
    rintro rfl
    rw [Descriptors.install_self] at hfree
    cases hfree
  apply Descriptors.lowest?_eq_gap h
  · intro j hj
    obtain rfl : j = 0 := by omega
    rw [Descriptors.install_self]
    rfl
  · rw [Descriptors.install_of_ne (by omega)]
    exact if_pos (lt_closeLimit l (by omega) (by omega))

/-- INTERNAL: the third one is 2. -/
theorem lowest?_two {l : Limits}
    (h : (((cleared fds l.closeLimit).install 0 f).install 1 f).lowest? l.soft = some fd) :
    fd = 2 := by
  obtain ⟨hlt, hfree, -⟩ := Descriptors.lowest?_eq_some_iff.mp h
  have hone : fd ≠ 1 := by
    rintro rfl
    rw [Descriptors.install_self] at hfree
    cases hfree
  have hpos : fd ≠ 0 := by
    rintro rfl
    rw [Descriptors.install_of_ne (by omega), Descriptors.install_self] at hfree
    cases hfree
  apply Descriptors.lowest?_eq_gap h
  · intro j hj
    by_cases hj1 : j = 1
    · subst hj1
      rw [Descriptors.install_self]
      rfl
    · obtain rfl : j = 0 := by omega
      rw [Descriptors.install_of_ne (by omega), Descriptors.install_self]
      rfl
  · rw [Descriptors.install_of_ne (by omega), Descriptors.install_of_ne (by omega)]
    exact if_pos (lt_closeLimit l (by omega) (by omega))

/-- The standard descriptors. -/
theorem standard_of_lt (fds : Descriptors (OpenFile κ)) (limit : ℕ) (f : OpenFile κ)
    (h : fd < 3) : standard fds limit f fd = some f := by
  unfold standard
  by_cases h2 : fd = 2
  · rw [h2, Descriptors.install_self]
  · rw [Descriptors.install_of_ne h2]
    by_cases h1 : fd = 1
    · rw [h1, Descriptors.install_self]
    · rw [Descriptors.install_of_ne h1]
      obtain rfl : fd = 0 := by omega
      exact Descriptors.install_self

/-- The other descriptors. -/
theorem standard_of_le (fds : Descriptors (OpenFile κ)) (limit : ℕ) (f : OpenFile κ)
    (h : 3 ≤ fd) : standard fds limit f fd = if fd < limit then none else fds fd := by
  unfold standard
  rw [Descriptors.install_of_ne (by omega), Descriptors.install_of_ne (by omega),
    Descriptors.install_of_ne (by omega), cleared]

end Descriptors

section Steps

variable {devNull : κ} {p₀ p p' : Process κ} {leader pid n n' : ℕ} {c c' : Pc} {l : Call}
  {new : List (Pc × Process κ)}

/-- INTERNAL: what is known depends on the descriptors only as far as it says. -/
theorem Detached.congr (h : Detached p₀ leader p) (hl : p'.limits = p.limits)
    (hu : p'.umask = p.umask) (hs : p'.session = p.session) (ht : p'.terminal = p.terminal)
    (hi : p'.ignored = p.ignored) : Detached p₀ leader p' :=
  ⟨hl.trans h.limits, hu.trans h.umask, hs.trans h.session, ht.trans h.terminal,
    hi.trans h.ignored⟩

/-- What is known is kept by every step of the process. -/
theorem daemonizeStep_knows (h : Knows devNull p₀ leader pid c p)
    (hs : DaemonizeStep devNull pid n (c, p) l n' (c', p') new) :
    Knows devNull p₀ leader pid c' p' := by
  cases hs with
  | umask => exact ⟨h.1, h.2.1, h.2.2, rfl⟩
  | setsid => exact ⟨h.1, h.2.1, h.2.2.1, h.2.2.2, rfl, rfl⟩
  | sigaction =>
    refine ⟨h.1, ?_, h.2.2.1, h.2.2.2.1, h.2.2.2.2⟩
    rw [← h.2.1]
    rfl
  | chdir => exact ⟨h.1.congr rfl rfl rfl rfl rfl, h.2, rfl⟩
  | getrlimit =>
    obtain ⟨hd, hfds, hcwd⟩ := h
    exact ⟨hd, hcwd, by rw [hd.limits], Nat.zero_le _, by rw [hfds, cleared_zero]⟩
  | close _ hi =>
    obtain ⟨hd, hcwd, hlimit, hle, hfds⟩ := h
    refine ⟨hd.congr rfl rfl rfl rfl rfl, hcwd, hlimit, hi, ?_⟩
    rw [Process.close, hfds, cleared_close]
  | closed _ hi =>
    obtain ⟨hd, hcwd, rfl, hle, hfds⟩ := h
    refine ⟨hd, hcwd, ?_⟩
    rw [hfds, Nat.le_antisymm hle (Nat.le_of_not_lt hi)]
  | opened hlow =>
    obtain ⟨hd, hcwd, hfds⟩ := h
    rw [Process.lowest?, hfds, hd.limits] at hlow
    obtain rfl := lowest?_cleared hlow
    refine ⟨hd.congr rfl rfl rfl rfl rfl, hcwd, .inr ⟨⟨devNull, n⟩, rfl, rfl, ?_⟩⟩
    rw [Process.install, hfds]
  | openFails => exact ⟨h.1, h.2.1, .inl ⟨rfl, h.2.2⟩⟩
  | dupOut hf hlow =>
    obtain ⟨hd, hcwd, ⟨rfl, hfds⟩ | ⟨g, hg, rfl, hfds⟩⟩ := h
    · -- without /dev/null there is nothing to copy
      rw [Process.lowest?, hfds, hd.limits] at hlow
      have hlt := (Descriptors.lowest?_eq_some_iff.mp hlow).1
      have hclosed : cleared p₀.fds p₀.limits.closeLimit 0 = none :=
        if_pos (lt_closeLimit p₀.limits (by omega) (by omega))
      rw [hfds, hclosed] at hf
      cases hf
    · rw [Process.lowest?, hfds, hd.limits] at hlow
      obtain rfl := lowest?_one hlow
      rw [hfds, Descriptors.install_self] at hf
      obtain rfl := Option.some.inj hf
      refine ⟨hd.congr rfl rfl rfl rfl rfl, hcwd, .inr ⟨g, hg, rfl, rfl, ?_⟩⟩
      rw [Process.install, hfds]
  | dupOutFails => exact ⟨h.1, h.2.1, .inl rfl⟩
  | dupErr hf hlow =>
    obtain ⟨hd, hcwd, hnone | ⟨g, hg, rfl, rfl, hfds⟩⟩ := h
    · exact ⟨hd.congr rfl rfl rfl rfl rfl, hcwd, .inl (.inl hnone)⟩
    · rw [Process.lowest?, hfds, hd.limits] at hlow
      obtain rfl := lowest?_two hlow
      rw [hfds, Descriptors.install_of_ne (by omega), Descriptors.install_self] at hf
      obtain rfl := Option.some.inj hf
      refine ⟨hd.congr rfl rfl rfl rfl rfl, hcwd, .inr ⟨g, hg, rfl, rfl, rfl, ?_⟩⟩
      rw [Process.install, hfds, standard]
  | dupErrFails => exact ⟨h.1, h.2.1, .inl (.inr rfl)⟩
  | openlog _ fd0 fd1 fd2 =>
    unfold afterOpenlog
    split
    · trivial
    · rename_i hok
      obtain ⟨hd, hcwd, hnone | ⟨g, hg, -, -, -, hfds⟩⟩ := h
      · simp only [not_or, not_not] at hok
        obtain ⟨-, rfl, rfl⟩ := hok
        rcases hnone with hnone | hnone <;> cases hnone
      · exact ⟨hd, hcwd, g, hg, hfds⟩
  | fork | forkFails | sigactionFails | forkAgain | forkAgainFails | chdirFails
  | getrlimitFails | failed | exit => trivial

/-- What is known of a forked process. -/
theorem daemonizeStep_forks (h : Knows devNull p₀ leader pid c p) (j : ℕ)
    (hs : DaemonizeStep devNull pid n (c, p) l n' (c', p') new) :
    ∀ q ∈ new, Knows devNull p₀ pid j q.1 q.2 := by
  intro q hq
  cases hs with
  | fork =>
    obtain rfl := List.mem_singleton.mp hq
    exact ⟨h.1, h.2.1, h.2.2.1, h.2.2.2⟩
  | forkAgain =>
    obtain rfl := List.mem_singleton.mp hq
    obtain ⟨hl, hi, hfds, hu, hsession, ht⟩ := h
    exact ⟨⟨hl, hu, hsession, ht, hi⟩, hfds⟩
  | _ => cases hq

end Steps

/-! ## Where the descriptors come from -/

section Effects

variable {devNull : κ} {pid n n' fd fd' : ℕ} {p p' : Process κ} {f g : OpenFile κ} {c c' : Pc}
  {l : Call} {new : List (Pc × Process κ)}

/-- INTERNAL: a new descriptor takes no open one's place. -/
theorem install_of_lowest? (hlow : p.lowest? = some fd') (h : p.fds fd = some f) :
    (p.install fd' g).fds fd = some f := by
  have hfree := Process.free_of_lowest? hlow
  have hne : fd ≠ fd' := by
    rintro rfl
    rw [hfree] at h
    cases h
  exact (Process.install_of_ne hne).trans h

/-- INTERNAL: the files of a table with one more descriptor. -/
theorem of_install (h : (p.install fd' g).fds fd = some f) :
    fd = fd' ∧ f = g ∨ p.fds fd = some f := by
  by_cases hfd : fd = fd'
  · subst hfd
    exact .inl ⟨rfl, (Option.some.inj (Process.install_self.symm.trans h)).symm⟩
  · exact .inr ((Process.install_of_ne hfd).symm.trans h)

/-- What a step may do to the descriptors of a process: each is a copy of one that it had, or
is opened to a new file. -/
structure Effect (n : ℕ) (p : Process κ) (n' : ℕ) (p' : Process κ) : Prop where
  opened_le : n ≤ n'
  own : ∀ fd f, p'.fds fd = some f → (∃ fd', p.fds fd' = some f) ∨ f.number = n ∧ n < n'

/-- INTERNAL: the same descriptors. -/
theorem Effect.same (h : p'.fds = p.fds) : Effect n p n p' :=
  ⟨Nat.le_refl n, fun fd _ hf => .inl ⟨fd, by rw [← h]; exact hf⟩⟩

/-- INTERNAL: a new file. -/
theorem Effect.install (n : ℕ) (p : Process κ) (fd : ℕ) (kind : κ) :
    Effect n p (n + 1) (p.install fd ⟨kind, n⟩) := by
  refine ⟨Nat.le_succ n, fun fd' f hf => ?_⟩
  rcases of_install hf with ⟨-, rfl⟩ | hf
  · exact .inr ⟨rfl, Nat.lt_succ_self n⟩
  · exact .inl ⟨fd', hf⟩

/-- INTERNAL: a copy. -/
theorem Effect.copy (hf : p.fds fd = some f) (fd' : ℕ) : Effect n p n (p.install fd' f) := by
  refine ⟨Nat.le_refl n, fun x g hg => .inl ?_⟩
  rcases of_install hg with ⟨-, rfl⟩ | hg
  · exact ⟨fd, hf⟩
  · exact ⟨x, hg⟩

/-- INTERNAL: one descriptor less. -/
theorem Effect.close (n : ℕ) (p : Process κ) (fd : ℕ) : Effect n p n (p.close fd) :=
  ⟨Nat.le_refl n, fun fd' _ hf => .inl ⟨fd', (Descriptors.of_close_eq_some hf).2⟩⟩

/-- INTERNAL: none left. -/
theorem Effect.ended (n : ℕ) (p : Process κ) : Effect n p n p.ended :=
  ⟨Nat.le_refl n, fun _ _ hf => by cases hf⟩

/-- A step of `daemonize` only copies descriptors or opens new files. -/
theorem daemonizeStep_effect (h : DaemonizeStep devNull pid n (c, p) l n' (c', p') new) :
    Effect n p n' p' := by
  cases h with
  | close => exact .close n p _
  | opened => exact .install n p _ _
  | dupOut hf | dupErr hf => exact .copy hf _
  | exit => exact .ended n p
  | fork | forkAgain | openlog | umask | forkFails | setsid | sigaction | sigactionFails
  | forkAgainFails | chdir | chdirFails | getrlimit | getrlimitFails | closed | openFails
  | dupOutFails | dupErrFails | failed => exact .same rfl

/-- A child has the descriptors of its parent. -/
theorem daemonizeStep_child (h : DaemonizeStep devNull pid n (c, p) l n' (c', p') new) :
    ∀ q ∈ new, q.2.fds = p.fds ∧ (q.1 = .setsid ∨ q.1 = .chdir) := by
  intro q hq
  cases h with
  | fork =>
    rw [List.mem_singleton.mp hq]
    exact ⟨rfl, .inl rfl⟩
  | forkAgain =>
    rw [List.mem_singleton.mp hq]
    exact ⟨rfl, .inr rfl⟩
  | _ => cases hq

/-- A process that exits has no descriptors. -/
theorem daemonizeStep_exited {status : ℤ}
    (h : DaemonizeStep devNull pid n (c, p) l n' (.exited status, p') new) :
    p'.fds = .empty := by
  generalize hc : Pc.exited status = c' at h
  cases h with
  | exit => rfl
  | openlog =>
    unfold afterOpenlog at hc
    split at hc <;> cases hc
  | _ => cases hc

end Effects

/-! ## When all calls succeed -/

/-- The child of `p`, when it exits: `pid` is the leader of a session. -/
def Process.leading (p : Process κ) (pid : ℕ) : Process κ :=
  Process.sigaction { p.forked with umask := 0, session := pid, terminal := false } .hup true

/-- The child of that child, when `daemonize` returns in it: /dev/null is open to `f`. -/
def Process.detached (p : Process κ) (pid : ℕ) (f : OpenFile κ) : Process κ :=
  { (p.leading pid).forked with cwd := "/", fds := standard p.fds p.limits.closeLimit f }

section Successes

variable {Kern Proc Lab : Type} {P : ProcessProgram Kern Proc Lab}
  {settle : List Proc → Kern → Kern → Prop} {s₀ : Processes Kern Proc} {devNull : κ}
  {emb : Pc × Process κ → Proc} {kern : ℕ → List Proc → Kern} {i n n' : ℕ}
  {q q' : Pc × Process κ} {l : Call} {new : List (Pc × Process κ)} {front ps : List Proc}

/-- A program whose processes run `daemonize`: `emb` is where one of them is, and `kern` is
what the kernel keeps when `n` files have been opened. -/
structure Embeds (P : ProcessProgram Kern Proc Lab) (settle : List Proc → Kern → Kern → Prop)
    (devNull : κ) (emb : Pc × Process κ → Proc) (kern : ℕ → List Proc → Kern) : Prop where
  step : ∀ {i n n' : ℕ} {q q' : Pc × Process κ} {l : Call} {new : List (Pc × Process κ)}
    (ps : List Proc), DaemonizeStep devNull i n q l n' q' new →
    ∃ l' k, P i (kern n ps) (emb q) l' k (emb q') (new.map emb) ∧
      ∀ ps', settle ps' k (kern n' ps')

/-- A run comes to these processes, with `n` files opened. -/
def Reaches (P : ProcessProgram Kern Proc Lab) (settle : List Proc → Kern → Kern → Prop)
    (s₀ : Processes Kern Proc) (kern : ℕ → List Proc → Kern) (n : ℕ) (ps : List Proc) : Prop :=
  ∃ tr, ProcessRun P settle s₀ tr ⟨kern n ps, ps⟩

/-- INTERNAL: one more step of a process in `daemonize`. -/
theorem Embeds.snoc (hE : Embeds P settle devNull emb kern)
    (h : Reaches P settle s₀ kern n ps) (hq : ps[i]? = some (emb q))
    (hs : DaemonizeStep devNull i n q l n' q' new) :
    Reaches P settle s₀ kern n' (ps.set i (emb q') ++ new.map emb) := by
  obtain ⟨tr, hr⟩ := h
  obtain ⟨l', k, hP, hsettle⟩ := hE.step ps hs
  exact ⟨_, hr.snoc i hq hP (hsettle _)⟩

/-- INTERNAL: one more step of the youngest process. -/
theorem Embeds.snoc_last (hE : Embeds P settle devNull emb kern) (hlen : front.length = i)
    (h : Reaches P settle s₀ kern n (front ++ [emb q]))
    (hs : DaemonizeStep devNull i n q l n' q' new) :
    Reaches P settle s₀ kern n' (front ++ emb q' :: new.map emb) := by
  subst hlen
  have hstep := hE.snoc h List.getElem?_concat_length hs
  rwa [List.set_append_right _ _ (Nat.le_refl _), Nat.sub_self, List.set_cons_zero,
    List.append_assoc, List.singleton_append] at hstep

/-- INTERNAL: the loop that closes the descriptors. -/
theorem Embeds.closing (hE : Embeds P settle devNull emb kern) {limit m : ℕ} {p : Process κ}
    (hlen : front.length = i)
    (h : Reaches P settle s₀ kern n (front ++ [emb (.closing limit 0, p)])) (hm : m ≤ limit) :
    Reaches P settle s₀ kern n
      (front ++ [emb (.closing limit m, { p with fds := cleared p.fds m })]) := by
  induction m with
  | zero =>
    rw [cleared_zero]
    exact h
  | succ m ih =>
    have hclose := hE.snoc_last hlen (ih (by omega)) (.close n _ hm)
    rw [Process.close, cleared_close] at hclose
    exact hclose

/-- INTERNAL: the standard descriptors, on a table without them. -/
theorem Embeds.opens (hE : Embeds P settle devNull emb kern) {p : Process κ}
    (hlen : front.length = i) (hsoft : 3 ≤ p.limits.soft)
    (h : Reaches P settle s₀ kern n
      (front ++ [emb (.openNull, { p with fds := cleared p.fds p.limits.closeLimit })])) :
    Reaches P settle s₀ kern (n + 1)
      (front ++ [emb (.done,
        { p with fds := standard p.fds p.limits.closeLimit ⟨devNull, n⟩ })]) := by
  have hfree : ∀ fd ≤ 2, cleared p.fds p.limits.closeLimit fd = none := fun fd hfd =>
    if_pos (lt_closeLimit p.limits (by omega) hfd)
  -- the process without the three descriptors, with the first one and with the first two
  let cut : Process κ := { p with fds := cleared p.fds p.limits.closeLimit }
  let one := cut.install 0 ⟨devNull, n⟩
  let two := one.install 1 ⟨devNull, n⟩
  have hzero : cut.lowest? = some 0 :=
    Descriptors.lowest?_eq_some_iff.mpr
      ⟨Nat.lt_of_lt_of_le (by decide) hsoft, hfree 0 (by omega), nofun⟩
  have hone : one.lowest? = some 1 := by
    refine Descriptors.lowest?_eq_some_iff.mpr
      ⟨Nat.lt_of_lt_of_le (by decide) hsoft, hfree 1 (by omega), fun j hj => ?_⟩
    obtain rfl : j = 0 := by omega
    rfl
  have htwo : two.lowest? = some 2 := by
    refine Descriptors.lowest?_eq_some_iff.mpr
      ⟨Nat.lt_of_lt_of_le (by decide) hsoft, hfree 2 (by omega), fun j hj => ?_⟩
    obtain rfl | rfl : j = 0 ∨ j = 1 := by omega
    · rfl
    · rfl
  have hopened := hE.snoc_last hlen h (.opened n hzero)
  have hdupOut := hE.snoc_last hlen hopened (.dupOut (n + 1) rfl hone)
  have hdupErr := hE.snoc_last hlen hdupOut (.dupErr (n + 1) rfl htwo)
  exact hE.snoc_last hlen hdupErr (.openlog _ _ _ _ _)

/-- **A run of `daemonize`.** If all calls of process `i` and of its children succeed and three
descriptors may be open, then `daemonize` returns in the second child, and the others exit. -/
theorem daemonize_succeeds (hE : Embeds P settle devNull emb kern) {p : Process κ}
    (h : Reaches P settle s₀ kern n ps) (hp : ps[i]? = some (emb (.start, p)))
    (hsoft : 3 ≤ p.limits.soft) :
    Reaches P settle s₀ kern (n + 1)
      (ps.set i (emb (.exiting 0, { p with umask := 0 })) ++
        [emb (.exiting 0, p.leading ps.length),
          emb (.done, p.detached ps.length ⟨devNull, n⟩)]) := by
  have humask := hE.snoc h hp (.umask n p)
  have hfork := hE.snoc humask (Concurrency.getElem?_stepped_self hp _ _) (.fork n _)
  rw [List.map_nil, List.append_nil, List.set_set] at hfork
  -- the first child
  have hlen : (ps.set i (emb (.exiting 0, { p with umask := 0 }))).length = ps.length :=
    List.length_set
  have hsetsid := hE.snoc_last hlen hfork (.setsid n _)
  have hsigaction := hE.snoc_last hlen hsetsid (.sigaction n _)
  have hforkAgain := hE.snoc_last hlen hsigaction (.forkAgain n _)
  -- the second child
  rw [List.append_cons] at hforkAgain
  have hlen' : (ps.set i (emb (.exiting 0, { p with umask := 0 })) ++
      [emb (.exiting 0, p.leading ps.length)]).length = ps.length + 1 := by
    rw [List.length_append, hlen, List.length_singleton]
  have hchdir := hE.snoc_last hlen' hforkAgain (.chdir n _)
  have hgetrlimit := hE.snoc_last hlen' hchdir (.getrlimit n _)
  have hclosing := hE.closing (p := { (p.leading ps.length).forked with cwd := "/" }) hlen'
    hgetrlimit (Nat.le_refl _)
  have hclosed := hE.snoc_last hlen' hclosing (.closed n _ (Nat.lt_irrefl _))
  have hdone := hE.opens (p := { (p.leading ps.length).forked with cwd := "/" }) hlen' hsoft
    hclosed
  rw [← List.append_cons] at hdone
  exact hdone

end Successes

/-! ## The three processes -/

/-- The process `i` of the three may be here, and exits with one of these statuses. -/
def Stage (i : ℕ) : Pc → Prop
  | .start => i = 0
  | .fork => i = 0
  | .setsid => i = 1
  | .sigaction => i = 1
  | .forkAgain => i = 1
  | .exiting st => i = 0 ∧ (st = 0 ∨ st = 2) ∨ i = 1 ∧ (st = 0 ∨ st = 3 ∨ st = 4) ∨
    i = 2 ∧ (st = 5 ∨ st = 1 ∨ st = 2)
  | .exited st => i = 0 ∧ (st = 0 ∨ st = 2) ∨ i = 1 ∧ (st = 0 ∨ st = 3 ∨ st = 4) ∨
    i = 2 ∧ (st = 5 ∨ st = 1 ∨ st = 2)
  | _ => i = 2

/-- The process has forked and leaves. -/
def Leaves (c : Pc) : Prop := c = .exiting 0 ∨ c = .exited 0

/-- One of the copies has failed, as the control point remembers. -/
def DupFailed : Pc → Prop
  | .dupErr _ fd1 => fd1 = none
  | .check _ fd1 fd2 => fd1 = none ∨ fd2 = none
  | .failed => True
  | _ => False

/-- What is known of all processes. -/
structure Family (devNull : κ) (p₀ : Process κ) (tr : List (ℕ × Call))
    (ps : List (Pc × Process κ)) : Prop where
  knows : ∀ i c p, ps[i]? = some (c, p) → Knows devNull p₀ (i - 1) i c p
  stage : ∀ i c p, ps[i]? = some (c, p) → Stage i c
  leaves : ∀ i c p, ps[i]? = some (c, p) → (Leaves c ↔ i + 1 < ps.length)
  dups : ∀ i c p, ps[i]? = some (c, p) → DupFailed c → (i, .dup none) ∈ tr
  message : ∀ i, (i, .syslog) ∈ tr → (i, .dup none) ∈ tr

section Runs

variable {devNull : κ} {p₀ p p' : Process κ} {i n n' : ℕ} {c c' : Pc} {l : Call}
  {new : List (Pc × Process κ)}

/-- INTERNAL: a step of a process keeps it in its stage, unless it forks. -/
theorem daemonizeStep_stage (h : Stage i c)
    (hs : DaemonizeStep devNull i n (c, p) l n' (c', p') new) :
    Stage i c' ∧ (new = [] ∧ (Leaves c' ↔ Leaves c) ∨
      ∃ q, new = [q] ∧ Leaves c' ∧ ¬Leaves c ∧ ¬Leaves q.1 ∧ Stage (i + 1) q.1) := by
  cases hs with
  | fork =>
    obtain rfl : i = 0 := h
    exact ⟨.inl ⟨rfl, .inl rfl⟩, .inr ⟨_, rfl, .inl rfl, by simp [Leaves], by simp [Leaves], rfl⟩⟩
  | forkAgain =>
    obtain rfl : i = 1 := h
    exact ⟨.inr (.inl ⟨rfl, .inl rfl⟩),
      .inr ⟨_, rfl, .inl rfl, by simp [Leaves], by simp [Leaves], rfl⟩⟩
  | exit _ st =>
    refine ⟨h, .inl ⟨rfl, ?_⟩⟩
    simp [Leaves]
  | openlog _ fd0 fd1 fd2 =>
    unfold afterOpenlog
    split
    · exact ⟨h, .inl ⟨rfl, by simp [Leaves]⟩⟩
    · exact ⟨h, .inl ⟨rfl, by simp [Leaves]⟩⟩
  | forkFails | sigactionFails | forkAgainFails | chdirFails | getrlimitFails | failed =>
    refine ⟨?_, .inl ⟨rfl, by simp [Leaves]⟩⟩
    simp only [Stage] at h
    subst h
    simp [Stage]
  | umask | setsid | sigaction | chdir | getrlimit | close | closed | opened | openFails
  | dupOut | dupOutFails | dupErr | dupErrFails =>
    exact ⟨h, .inl ⟨rfl, by simp [Leaves]⟩⟩

/-- INTERNAL: the control point remembers a copy that has failed. -/
theorem daemonizeStep_dups {leader pid : ℕ} (h : Knows devNull p₀ leader pid c p)
    (hs : DaemonizeStep devNull pid n (c, p) l n' (c', p') new) :
    (DupFailed c' → DupFailed c ∨ l = .dup none) ∧ (l = .syslog → DupFailed c) ∧
      ∀ q ∈ new, ¬DupFailed q.1 := by
  have hnone : ∀ q ∈ ([] : List (Pc × Process κ)), ¬DupFailed q.1 := List.forall_mem_nil _
  cases hs with
  | openlog _ fd0 fd1 fd2 =>
    refine ⟨fun hfailed => .inl ?_, fun hl => (by cases hl), hnone⟩
    obtain ⟨-, -, hnone | ⟨g, -, rfl, rfl, rfl, -⟩⟩ := h
    · exact hnone
    · exact hfailed.elim
  | dupErr =>
    refine ⟨fun hfailed => .inl (hfailed.resolve_right ?_), fun hl => (by cases hl), hnone⟩
    simp
  | dupErrFails => exact ⟨fun _ => .inr rfl, fun hl => (by cases hl), hnone⟩
  | dupOutFails => exact ⟨fun _ => .inr rfl, fun hl => (by cases hl), hnone⟩
  | dupOut => exact ⟨fun hfailed => (by cases hfailed), fun hl => (by cases hl), hnone⟩
  | failed => exact ⟨fun hfailed => hfailed.elim, fun _ => trivial, hnone⟩
  | fork | forkAgain =>
    refine ⟨fun hfailed => hfailed.elim, fun hl => (by cases hl), fun q hq => ?_⟩
    obtain rfl := List.mem_singleton.mp hq
    exact id
  | umask | forkFails | setsid | sigaction | sigactionFails | forkAgainFails | chdir
  | chdirFails | getrlimit | getrlimitFails | close | closed | opened | openFails | exit =>
    exact ⟨fun hfailed => hfailed.elim, fun hl => (by cases hl), hnone⟩

/-- INTERNAL: every step keeps what is known of all processes. -/
theorem Family.step {ps : List (Pc × Process κ)} {tr : List (ℕ × Call)}
    (h : Family devNull p₀ tr ps) (hp : ps[i]? = some (c, p))
    (hs : DaemonizeStep devNull i n (c, p) l n' (c', p') new) :
    Family devNull p₀ (tr ++ [(i, l)]) (ps.set i (c', p') ++ new) := by
  have hknows := h.knows i c p hp
  obtain ⟨hstage, hfamily⟩ := daemonizeStep_stage (h.stage i c p hp) hs
  obtain ⟨hdups, hmessage, hfresh⟩ := daemonizeStep_dups hknows hs
  have hlt := (List.getElem?_eq_some_iff.mp hp).1
  -- only the youngest process has not forked
  have hnew : new = [] ∨ ∃ q, new = [q] ∧ i + 1 = ps.length ∧ Stage (i + 1) q.1 ∧
      ¬Leaves q.1 := by
    rcases hfamily with ⟨hnil, -⟩ | ⟨q, hone, -, hstays, hq, hq'⟩
    · exact .inl hnil
    · refine .inr ⟨q, hone, ?_, hq', hq⟩
      rw [h.leaves i c p hp] at hstays
      omega
  have hchild : ∀ j q, ps.length ≤ j → new[j - ps.length]? = some q →
      j = i + 1 ∧ new = [q] ∧ j + 1 = ps.length + new.length := by
    intro j q hj hq
    rcases hnew with hnil | ⟨q', hone, hlast, -, -⟩
    · rw [hnil] at hq
      cases hq
    · rw [hone] at hq ⊢
      have hlt' := (List.getElem?_eq_some_iff.mp hq).1
      rw [List.length_singleton] at hlt'
      obtain rfl : j = ps.length := by omega
      rw [Nat.sub_self] at hq
      refine ⟨hlast.symm, ?_, rfl⟩
      rw [Option.some.inj hq]
  refine ⟨fun j d q hq => ?_, fun j d q hq => ?_, fun j d q hq => ?_, fun j d q hq hd => ?_,
    fun j hj => ?_⟩
  · rcases Concurrency.getElem?_stepped hp hq with ⟨rfl, heq⟩ | ⟨-, hq⟩ | ⟨hle, hq⟩
    · cases heq
      exact daemonizeStep_knows hknows hs
    · exact h.knows j d q hq
    · obtain ⟨rfl, hone, -⟩ := hchild j _ hle hq
      exact daemonizeStep_forks hknows _ hs (d, q) (hone ▸ List.mem_singleton_self _)
  · rcases Concurrency.getElem?_stepped hp hq with ⟨rfl, heq⟩ | ⟨-, hq⟩ | ⟨hle, hq⟩
    · cases heq
      exact hstage
    · exact h.stage j d q hq
    · obtain ⟨rfl, hone, -⟩ := hchild j _ hle hq
      rcases hnew with hnil | ⟨q', hone', -, hq', -⟩
      · rw [hnil] at hone
        cases hone
      · obtain rfl : (d, q) = q' := by simpa using hone.symm.trans hone'
        exact hq'
  · rw [List.length_append, List.length_set]
    rcases Concurrency.getElem?_stepped hp hq with ⟨rfl, heq⟩ | ⟨hne, hq⟩ | ⟨hle, hq⟩
    · cases heq
      rcases hfamily with ⟨hnil, hiff⟩ | ⟨q', hone, hleaves, -⟩
      · rw [hiff, h.leaves j c p hp, hnil]
        rfl
      · rw [hone, List.length_singleton]
        exact iff_of_true hleaves (by omega)
    · rw [h.leaves j d q hq]
      have hj := (List.getElem?_eq_some_iff.mp hq).1
      rcases hnew with hnil | ⟨q', hone, hlast, -⟩
      · rw [hnil]
        rfl
      · rw [hone, List.length_singleton]
        omega
    · obtain ⟨rfl, hone, hlen⟩ := hchild j _ hle hq
      rcases hnew with hnil | ⟨q', hone', -, -, hq'⟩
      · rw [hnil] at hone
        cases hone
      · obtain rfl : (d, q) = q' := by simpa using hone.symm.trans hone'
        exact iff_of_false hq' (by omega)
  · rw [List.mem_append]
    rcases Concurrency.getElem?_stepped hp hq with ⟨rfl, heq⟩ | ⟨-, hq⟩ | ⟨hle, hq⟩
    · cases heq
      rcases hdups hd with hd | rfl
      · exact .inl (h.dups j c p hp hd)
      · exact .inr (List.mem_singleton_self _)
    · exact .inl (h.dups j d q hq hd)
    · obtain ⟨-, hone, -⟩ := hchild j _ hle hq
      exact absurd hd (hfresh (d, q) (hone ▸ List.mem_singleton_self _))
  · rw [List.mem_append] at hj ⊢
    rcases hj with hj | hj
    · exact .inl (h.message j hj)
    · obtain ⟨rfl, rfl⟩ := Prod.mk.inj (List.mem_singleton.mp hj)
      exact .inl (h.dups j c p hp (hmessage rfl))

/-- The kernel has nothing to settle. -/
def NothingToSettle (_ : List (Pc × Process κ)) (k k' : ℕ) : Prop := k' = k

/-- INTERNAL: what is known of all processes of every run. -/
theorem family_run (h₀ : p.limits = p₀.limits ∧ p.ignored = p₀.ignored ∧ p.fds = p₀.fds)
    {tr : List (ℕ × Call)} {s : Processes ℕ (Pc × Process κ)}
    (h : ProcessRun (daemonize devNull) NothingToSettle ⟨n, [(.start, p)]⟩ tr s) :
    Family devNull p₀ tr s.procs := by
  refine h.trace_invariant (fun tr s => Family devNull p₀ tr s.procs) ?_ ?_
  · have honly : ∀ {i : ℕ} {c : Pc} {q : Process κ},
        [((.start, p) : Pc × Process κ)][i]? = some (c, q) → i = 0 ∧ c = .start ∧ q = p := by
      intro i c q hq
      obtain rfl : i = 0 := by
        have hlt := (List.getElem?_eq_some_iff.mp hq).1
        simpa using hlt
      cases hq
      exact ⟨rfl, rfl, rfl⟩
    refine ⟨fun i c q hq => ?_, fun i c q hq => ?_, fun i c q hq => ?_, fun i c q hq hd => ?_,
      nofun⟩
    · obtain ⟨rfl, rfl, rfl⟩ := honly hq
      exact h₀
    · obtain ⟨rfl, rfl, rfl⟩ := honly hq
      rfl
    · obtain ⟨rfl, rfl, rfl⟩ := honly hq
      simp [Leaves]
    · obtain ⟨rfl, rfl, rfl⟩ := honly hq
      exact hd.elim
  · rintro tr s ⟨i, l⟩ s' - hf hs
    obtain ⟨hp, hstep, -⟩ := hs
    exact hf.step hp hstep

/-- What the caller `p₀` of `daemonize` becomes. -/
structure Daemon (devNull : κ) (p₀ p : Process κ) : Prop where
  standard : ∃ f : OpenFile κ, f.kind = devNull ∧ ∀ fd < 3, p.fds fd = some f
  closed : ∀ fd, 3 ≤ fd → fd < p₀.limits.closeLimit → p.fds fd = none
  kept : ∀ fd, 3 ≤ fd → p₀.limits.closeLimit ≤ fd → p.fds fd = p₀.fds fd
  umask : p.umask = 0
  cwd : p.cwd = "/"
  session : p.session = 1
  terminal : p.terminal = false
  ignored : p.ignored = Function.update p₀.ignored .hup true

/-- **`daemonize` returns in one process at most.** Whatever the calls return, it is the third
one; the first two have exited, or are about to, with status 0. The daemon has /dev/null at 0,
1 and 2 and all other descriptors below the limit closed, an empty mask, the root as its
directory and `SIGHUP` ignored; its session has no terminal, and another process has created
it. The message on the descriptors is written only if a `dup` has failed. -/
theorem daemonize_returns (devNull : κ) (p₀ : Process κ) (n : ℕ) {tr : List (ℕ × Call)}
    {s : Processes ℕ (Pc × Process κ)}
    (h : ProcessRun (daemonize devNull) NothingToSettle ⟨n, [(.start, p₀)]⟩ tr s) :
    (∀ i p, s.procs[i]? = some (.done, p) → i = 2 ∧ Daemon devNull p₀ p ∧
      ∀ j c q, j < 2 → s.procs[j]? = some (c, q) → c = .exiting 0 ∨ c = .exited 0) ∧
    ∀ i, (i, .syslog) ∈ tr → (i, .dup none) ∈ tr := by
  have hf : Family devNull p₀ tr s.procs := family_run ⟨rfl, rfl, rfl⟩ h
  refine ⟨fun i p hp => ?_, hf.message⟩
  obtain rfl : i = 2 := hf.stage i _ p hp
  obtain ⟨hd, hcwd, f, hkind, hfds⟩ := hf.knows 2 _ p hp
  refine ⟨rfl, ⟨⟨f, hkind, fun fd hfd => ?_⟩, fun fd hle hlt => ?_, fun fd hle hlt => ?_,
    hd.umask, hcwd, hd.session, hd.terminal, hd.ignored⟩, fun j c q hj hq => ?_⟩
  · rw [hfds]
    exact standard_of_lt _ _ f hfd
  · rw [hfds, standard_of_le _ _ f hle, if_pos hlt]
  · rw [hfds, standard_of_le _ _ f hle, if_neg (by omega)]
  · have hlen := (List.getElem?_eq_some_iff.mp hp).1
    exact (hf.leaves j c q hq).mpr (by omega)

/-- A process with a terminal and three descriptors at most. -/
def started : Process Unit where
  fds := .empty
  limits := ⟨3, some 3, by simp⟩
  umask := 18
  cwd := "/root"
  session := 0
  terminal := true
  ignored := fun _ => false
  blocked := fun _ => false
  pending := fun _ => false

/-- INTERNAL: the processes that run nothing else. -/
theorem embeds_daemonize (devNull : κ) :
    Embeds (daemonize devNull) NothingToSettle devNull id fun n _ => n := by
  refine ⟨fun {i n n' q q' l new} ps hs => ⟨l, n', ?_, fun _ => rfl⟩⟩
  rw [List.map_id]
  exact hs

/-- A run in which all calls succeed. -/
theorem daemonize_returns_third :
    ∃ (tr : List (ℕ × Call)) (s : Processes ℕ (Pc × Process Unit)) (p : Process Unit),
      ProcessRun (daemonize ()) NothingToSettle ⟨0, [(.start, started)]⟩ tr s ∧
        s.procs[2]? = some (.done, p) ∧ Daemon () started p := by
  have h₀ : Reaches (daemonize ()) NothingToSettle ⟨0, [(.start, started)]⟩ (fun n _ => n) 0 _ :=
    ⟨[], .nil⟩
  obtain ⟨tr, h⟩ := daemonize_succeeds (embeds_daemonize ()) (i := 0) h₀ rfl (Nat.le_refl 3)
  exact ⟨tr, _, _, h, rfl, ((daemonize_returns () started 0 h).1 2 _ rfl).2.1⟩

end Runs

end UbuntuProjects.Daemonize
