import UbuntuProjects.Analysis.RuptimedDescriptors

/-!
# The connections of `ruptimed`

Whose descriptors are open to the connection of a client. While a process is between `accept`
and `fork` it is the only one; behind `fork` there are the child and, until it has closed its
own descriptor, the parent. So a process that has become `uptime` writes to a connection that
nobody else writes to or keeps open (`connection_is_private`).
-/

set_option autoImplicit false

namespace UbuntuProjects.Ruptimed

open Concurrency (Processes ProcessRun ProcessStep)
open Daemonize (OpenFile Process Effect)

/-! ## What a step does to the descriptors -/

section Steps

variable {i sockfd n n' : ℕ} {k k' : Kernel} {p p' : Process Kind} {log log' : Option ℕ}
  {c c' : Pc} {call : Call} {new : List Proc}

/-- INTERNAL: `syslog`. -/
theorem Syslog.effect (h : Syslog log n p n' p' log') : Effect n p n' p' := by
  cases h with
  | sent => exact .same rfl
  | connected => exact .install n p _ _

/-- INTERNAL: a call of `serve`. -/
theorem serveDescriptors_effect {c : Server.Pc} {call : Server.Call}
    (h : ServeDescriptors sockfd k c p log call k' p' log') :
    Effect k.opened p k'.opened p' := by
  cases h with
  | accept => exact .install _ p _ _
  | dup2 _ _ hf => exact .copy hf _
  | close => exact .close _ p _
  | execl =>
    cases log with
    | none => exact .same rfl
    | some fd => exact .close _ p fd
  | syslog _ _ hs => exact hs.effect
  | exit => exact .ended _ p
  | acceptFails | fork | dup2Fails | execlFails | waitpid => exact .same rfl

/-- What a step does to the descriptors. -/
theorem ruptimedStep_effect (h : RuptimedStep i k ⟨c, p, log⟩ call k' ⟨c', p', log'⟩ new) :
    Effect k.opened p k'.opened p' := by
  cases h with
  | daemonize _ h => exact Daemonize.daemonizeStep_effect h
  | initserver _ _ h =>
    cases h with
    | socket => exact .install _ p _ _
    | close => exact .close _ p _
    | _ => exact .same rfl
  | serve _ hd => exact serveDescriptors_effect hd
  | failed hs => exact hs.effect
  | exit => exact .ended _ p
  | refused | main | getaddrinfo | getaddrinfoFails | nextAddress | noAddress
  | initserverFailed | serves => exact .same rfl

/-- INTERNAL: who is forked by `daemonize` and who by `serve`. -/
theorem ruptimedStep_child (h : RuptimedStep i k ⟨c, p, log⟩ call k' ⟨c', p', log'⟩ new) :
    new = [] ∨ (∃ d, c = .daemonize d) ∧ (∀ q ∈ new, q.p.fds = p.fds ∧ ∃ d, q.pc = .daemonize d) ∨
      ∃ sockfd clfd q, c = .serve sockfd (.forking clfd) ∧
        c' = .serve sockfd (.parentClose clfd k.table.length) ∧ new = [q] ∧
        q.pc = .serve sockfd (.dupOut clfd) ∧ q.p.fds = p.fds ∧ p' = p := by
  cases h with
  | daemonize _ h =>
    refine .inr (.inl ⟨⟨_, rfl⟩, fun q hq => ?_⟩)
    obtain ⟨r, hr, rfl⟩ := List.mem_map.mp hq
    exact ⟨(Daemonize.daemonizeStep_child h r hr).1, _, rfl⟩
  | serve hs hd =>
    cases hs with
    | fork =>
      cases hd
      exact .inr (.inr ⟨_, _, _, rfl, rfl, rfl, rfl, rfl, rfl⟩)
    | _ => exact .inl rfl
  | _ => exact .inl rfl

/-- INTERNAL: a process forks when it has accepted. -/
theorem ruptimedStep_forking {clfd : ℕ}
    (h : RuptimedStep i k ⟨c, p, log⟩ call k' ⟨c', p', log'⟩ new)
    (hc : c' = .serve sockfd (.forking clfd)) :
    p.lowest? = some clfd ∧ p' = p.install clfd ⟨.connection, k.opened⟩ ∧ new = [] := by
  cases h with
  | serve hs hd =>
    cases hs with
    | accept =>
      cases hd with
      | accept _ _ _ hlow =>
        cases hc
        exact ⟨hlow, rfl, rfl⟩
    | _ => cases hc
  | _ => cases hc

/-- INTERNAL: what the parent does behind `fork`. -/
theorem ruptimedStep_parentClose {clfd m : ℕ}
    (h : RuptimedStep i k ⟨c, p, log⟩ call k' ⟨c', p', log'⟩ new)
    (hc : c = .serve sockfd (.parentClose clfd m)) : p' = p.close clfd ∧ new = [] := by
  subst hc
  cases h with
  | serve hs hd =>
    cases hs with
    | parentClose =>
      cases hd
      exact ⟨rfl, rfl⟩

end Steps

/-! ## Whose a connection is -/

/-- The descriptor `fd` of the process `j` is open to the file `d`. -/
def OpenAt (ps : List Proc) (j fd d : ℕ) : Prop :=
  ∃ (q : Proc) (f : OpenFile Kind), ps[j]? = some q ∧ q.p.fds fd = some f ∧ f.number = d

/-- The descriptor of its connection, in a process that is to become `uptime` or has. -/
def Pc.client : Pc → Option ℕ
  | .serve _ (.dupOut clfd) => some clfd
  | .serve _ (.dupErr clfd) => some clfd
  | .serve _ (.childClose _) => some 1
  | .serve _ .exec => some 1
  | .serve _ .uptime => some 1
  | _ => none

/-- The process `j` has forked the process `i` and is to close its descriptor `fd`. -/
def IsParent (ps : List Proc) (i j fd : ℕ) : Prop :=
  ∃ (q : Proc) (sockfd : ℕ), ps[j]? = some q ∧ q.pc = .serve sockfd (.parentClose fd i)

/-- Whose the connections are. -/
structure Owned (s : Processes Kernel Proc) : Prop where
  table : s.kern.table.length = s.procs.length
  below : ∀ j fd d, OpenAt s.procs j fd d → d < s.kern.opened
  accepted : ∀ (i : ℕ) (q : Proc) (sockfd clfd d : ℕ), s.procs[i]? = some q →
    q.pc = .serve sockfd (.forking clfd) → OpenAt s.procs i clfd d →
      ∀ j fd, OpenAt s.procs j fd d → j = i ∧ fd = clfd
  client : ∀ (i : ℕ) (q : Proc) (fd d : ℕ), s.procs[i]? = some q → q.pc.client = some fd →
    OpenAt s.procs i fd d → ∀ j fd', OpenAt s.procs j fd' d →
      j = i ∨ IsParent s.procs i j fd'

section Steps

variable {k k₁ : Kernel} {ps new : List Proc} {i j fd d : ℕ} {c c' : Pc} {p p' : Process Kind}
  {log log' : Option ℕ} {call : Call}

/-- INTERNAL: the descriptors of a process, as the table has them. -/
theorem OpenAt.mk {q : Proc} {f : OpenFile Kind} (hq : ps[j]? = some q)
    (hf : q.p.fds fd = some f) : OpenAt ps j fd f.number :=
  ⟨q, f, hq, hf, rfl⟩

/-- INTERNAL: the file at a descriptor. -/
theorem OpenAt.file {q : Proc} (h : OpenAt ps j fd d) (hq : ps[j]? = some q) :
    ∃ f, q.p.fds fd = some f ∧ f.number = d := by
  obtain ⟨r, f, hr, hf, hd⟩ := h
  obtain rfl := Option.some.inj (hq.symm.trans hr)
  exact ⟨f, hf, hd⟩

/-- INTERNAL: where the descriptors of the table are from, after a step. -/
theorem openAt_stepped (hp : ps[i]? = some ⟨c, p, log⟩)
    (hs : RuptimedStep i k ⟨c, p, log⟩ call k₁ ⟨c', p', log'⟩ new)
    (h : OpenAt (ps.set i ⟨c', p', log'⟩ ++ new) j fd d) :
    j ≠ i ∧ OpenAt ps j fd d ∨ j = i ∧ (∃ fd', OpenAt ps i fd' d) ∨
      j = i ∧ d = k.opened ∧ k.opened < k₁.opened ∨
      ps.length ≤ j ∧ OpenAt ps i fd d ∧ new ≠ [] := by
  obtain ⟨q, f, hq, hf, rfl⟩ := h
  rcases Concurrency.getElem?_stepped hp hq with ⟨rfl, rfl⟩ | ⟨hne, hq⟩ | ⟨hle, hq⟩
  · rcases (ruptimedStep_effect hs).own fd f hf with ⟨fd', hf⟩ | ⟨hnew, hlt⟩
    · exact .inr (.inl ⟨rfl, fd', .mk hp hf⟩)
    · exact .inr (.inr (.inl ⟨rfl, hnew, hlt⟩))
  · exact .inl ⟨hne, q, f, hq, hf, rfl⟩
  · have hmem := List.mem_of_getElem? hq
    have hfds : q.p.fds = p.fds := by
      rcases ruptimedStep_child hs with rfl | ⟨-, hfds⟩ | ⟨-, -, r, -, -, rfl, -, hfds, -⟩
      · cases hmem
      · exact (hfds q hmem).1
      · rw [List.mem_singleton.mp hmem]
        exact hfds
    exact .inr (.inr (.inr ⟨hle, .mk hp (hfds ▸ hf), List.ne_nil_of_mem hmem⟩))

/-- INTERNAL: a process that is to become `uptime` keeps its connection. -/
theorem ruptimedStep_client {p₀ : Process Kind} {E : Prop} {f : OpenFile Kind}
    (h : Sane p₀ k.listening E i p log c)
    (hs : RuptimedStep i k ⟨c, p, log⟩ call k₁ ⟨c', p', log'⟩ new)
    (hc : c'.client = some fd) (hf : p'.fds fd = some f) :
    new = [] ∧ ∃ fd₀, c.client = some fd₀ ∧ p.fds fd₀ = some f := by
  cases hs with
  | serve hs hd =>
    cases hs with
    | dupOut _ clfd =>
      cases hd
      obtain rfl := Option.some.inj hc
      have hle := (h.1.connected clfd rfl).1
      exact ⟨rfl, clfd, rfl, (Process.install_of_ne (show clfd ≠ 1 by omega)).symm.trans hf⟩
    | dupErr _ clfd =>
      cases hd
      obtain rfl := Option.some.inj hc
      obtain ⟨-, g, hg, hout, -⟩ := h
      rw [Process.install_of_ne (show 1 ≠ Server.STDERR_FILENO by decide), hout] at hf
      exact ⟨rfl, clfd, rfl, hg.trans hf⟩
    | childClose _ clfd =>
      cases hd
      obtain rfl := Option.some.inj hc
      have hle := (h.1.connected clfd rfl).1
      exact ⟨rfl, 1, rfl, (Process.close_of_ne (show 1 ≠ clfd by omega)).symm.trans hf⟩
    | execl =>
      cases hd
      obtain rfl := Option.some.inj hc
      exact ⟨rfl, 1, rfl, h.1.low_execl.1.symm.trans hf⟩
    | _ => cases hc
  | _ => cases hc

/-- INTERNAL: the process that has just accepted is the only one with the connection. -/
theorem accepted_stepped (h : Owned ⟨k, ps⟩) (hp : ps[i]? = some ⟨c, p, log⟩)
    (hs : RuptimedStep i k ⟨c, p, log⟩ call k₁ ⟨c', p', log'⟩ new) {m : ℕ} {q : Proc}
    {sockfd clfd : ℕ} (hq : (ps.set i ⟨c', p', log'⟩ ++ new)[m]? = some q)
    (hc : q.pc = .serve sockfd (.forking clfd))
    (hd : OpenAt (ps.set i ⟨c', p', log'⟩ ++ new) m clfd d)
    (hj : OpenAt (ps.set i ⟨c', p', log'⟩ ++ new) j fd d) : j = m ∧ fd = clfd := by
  rcases Concurrency.getElem?_stepped hp hq with ⟨rfl, rfl⟩ | ⟨hne, hq'⟩ | ⟨-, hq'⟩
  · obtain ⟨hlow, rfl, rfl⟩ := ruptimedStep_forking hs hc
    obtain ⟨f, hf, rfl⟩ := hd.file hq
    obtain rfl := Option.some.inj (Process.install_self.symm.trans hf)
    rcases openAt_stepped hp hs hj with ⟨-, hold⟩ | ⟨rfl, fd', hold⟩ | ⟨rfl, -, -⟩ | ⟨-, -, hnil⟩
    · exact absurd (h.below _ _ _ hold) (Nat.lt_irrefl _)
    · exact absurd (h.below _ _ _ hold) (Nat.lt_irrefl _)
    · obtain ⟨g, hg, hnew⟩ := hj.file hq
      rcases Daemonize.of_install hg with ⟨hfd, -⟩ | hg
      · exact ⟨rfl, hfd⟩
      · have hlt := h.below _ _ _ (OpenAt.mk hp hg)
        rw [hnew] at hlt
        exact absurd hlt (Nat.lt_irrefl _)
    · exact absurd rfl hnil
  · have hd' : OpenAt ps m clfd d := by
      obtain ⟨f, hf, rfl⟩ := hd.file hq
      exact .mk hq' hf
    have hsole := h.accepted m q sockfd clfd d hq' hc hd'
    rcases openAt_stepped hp hs hj with ⟨-, hold⟩ | ⟨-, fd', hold⟩ | ⟨-, rfl, -⟩ | ⟨-, hold, -⟩
    · exact hsole j fd hold
    · exact absurd (hsole i fd' hold).1.symm hne
    · exact absurd (h.below _ _ _ hd') (Nat.lt_irrefl _)
    · exact absurd (hsole i fd hold).1.symm hne
  · have hmem := List.mem_of_getElem? hq'
    rcases ruptimedStep_child hs with rfl | ⟨-, hnew⟩ | ⟨_, _, r, -, -, rfl, hr, -⟩
    · cases hmem
    · obtain ⟨e, he⟩ := (hnew q hmem).2
      rw [he] at hc
      cases hc
    · rw [List.mem_singleton.mp hmem, hr] at hc
      cases hc

/-- INTERNAL: a parent that has not moved is still the parent. -/
theorem IsParent.other {m : ℕ} (h : IsParent ps m j fd) (hne : j ≠ i) (q : Proc)
    (new : List Proc) : IsParent (ps.set i q ++ new) m j fd := by
  obtain ⟨r, sockfd, hr, hpc⟩ := h
  exact ⟨r, sockfd, Concurrency.getElem?_stepped_of_ne hr hne _ _, hpc⟩

/-- INTERNAL: the connection of a process that is to become `uptime`. -/
theorem client_stepped {p₀ : Process Kind} {E : Prop} (h : Owned ⟨k, ps⟩)
    (hsane : Sane p₀ k.listening E i p log c) (hp : ps[i]? = some ⟨c, p, log⟩)
    (hs : RuptimedStep i k ⟨c, p, log⟩ call k₁ ⟨c', p', log'⟩ new) {m fd' : ℕ} {q : Proc}
    (hq : (ps.set i ⟨c', p', log'⟩ ++ new)[m]? = some q) (hc : q.pc.client = some fd)
    (hd : OpenAt (ps.set i ⟨c', p', log'⟩ ++ new) m fd d)
    (hj : OpenAt (ps.set i ⟨c', p', log'⟩ ++ new) j fd' d) :
    j = m ∨ IsParent (ps.set i ⟨c', p', log'⟩ ++ new) m j fd' := by
  rcases Concurrency.getElem?_stepped hp hq with ⟨rfl, rfl⟩ | ⟨hne, hq'⟩ | ⟨hle, hq'⟩
  · obtain ⟨f, hf, rfl⟩ := hd.file hq
    obtain ⟨rfl, fd₀, hc₀, hf₀⟩ := ruptimedStep_client hsane hs hc hf
    rcases openAt_stepped hp hs hj with ⟨hne, hold⟩ | ⟨hjm, -⟩ | ⟨hjm, -⟩ | ⟨-, -, hnil⟩
    · apply (h.client m _ fd₀ f.number hp hc₀ (.mk hp hf₀) j fd' hold).imp_right
      intro hparent
      exact hparent.other hne _ _
    · exact .inl hjm
    · exact .inl hjm
    · exact absurd rfl hnil
  · have hd' : OpenAt ps m fd d := by
      obtain ⟨f, hf, rfl⟩ := hd.file hq
      exact .mk hq' hf
    have hclient := h.client m q fd d hq' hc hd'
    rcases openAt_stepped hp hs hj with ⟨hji, hold⟩ | ⟨rfl, x, hold⟩ | ⟨-, rfl, -⟩ |
      ⟨-, hold, hnil⟩
    · exact (hclient j fd' hold).imp_right fun hparent => hparent.other hji _ _
    · -- only the parent of `m` has the connection, and it is closing it
      obtain hjm | ⟨r, sockfd, hr, hpc⟩ := hclient j x hold
      · exact absurd hjm.symm hne
      · obtain rfl := Option.some.inj (hp.symm.trans hr)
        obtain ⟨rfl, -⟩ := ruptimedStep_parentClose hs hpc
        obtain ⟨f, hf, rfl⟩ := hj.file (Concurrency.getElem?_stepped_self hp _ _)
        obtain ⟨hx, hf⟩ := Memory.Descriptors.of_close_eq_some hf
        obtain hjm | ⟨r', sockfd', hr', hpc'⟩ := hclient j fd' (.mk hp hf)
        · exact absurd hjm.symm hne
        · obtain rfl := Option.some.inj (hp.symm.trans hr')
          cases hpc.symm.trans hpc'
          exact absurd rfl hx
    · exact absurd (h.below _ _ _ hd') (Nat.lt_irrefl _)
    · obtain hjm | ⟨r, sockfd, hr, hpc⟩ := hclient i fd' hold
      · exact absurd hjm.symm hne
      · obtain rfl := Option.some.inj (hp.symm.trans hr)
        exact absurd (ruptimedStep_parentClose hs hpc).2 hnil
  · have hmem := List.mem_of_getElem? hq'
    rcases ruptimedStep_child hs with rfl | ⟨-, hnew⟩ |
      ⟨sockfd, clfd, r, rfl, rfl, rfl, hr, hfds, rfl⟩
    · cases hmem
    · obtain ⟨e, he⟩ := (hnew q hmem).2
      rw [he] at hc
      cases hc
    · obtain rfl := List.mem_singleton.mp hmem
      rw [hr] at hc
      obtain rfl := Option.some.inj hc
      have hm : m = ps.length := by
        have hlt := (List.getElem?_eq_some_iff.mp hq').1
        rw [List.length_singleton] at hlt
        omega
      obtain ⟨f, hf, rfl⟩ := hd.file hq
      rw [hfds] at hf
      have hsole := h.accepted i _ sockfd clfd f.number hp rfl (.mk hp hf)
      rcases openAt_stepped hp hs hj with ⟨hji, hold⟩ | ⟨rfl, x, hold⟩ | ⟨-, hnew, -⟩ |
        ⟨hjle, -, -⟩
      · exact absurd (hsole j fd' hold).1 hji
      · right
        obtain ⟨g, hg, hgf⟩ := hj.file (Concurrency.getElem?_stepped_self hp _ _)
        obtain ⟨-, rfl⟩ := hsole j fd' ⟨_, g, hp, hg, hgf⟩
        refine ⟨_, sockfd, Concurrency.getElem?_stepped_self hp _ _, ?_⟩
        rw [hm, ← h.table]
      · have hlt := h.below _ _ _ (OpenAt.mk hp hf)
        rw [hnew] at hlt
        exact absurd hlt (Nat.lt_irrefl _)
      · left
        obtain ⟨r, -, hr', -⟩ := hj
        have hlen := (List.getElem?_eq_some_iff.mp hr').1
        rw [List.length_append, List.length_set, List.length_singleton] at hlen
        omega

end Steps

section Runs

variable {p₀ : Process Kind} {s₀ s : Processes Kernel Proc} {tr : List (ℕ × Call)}

/-- Whose the connections are, in every run. -/
theorem owned_run (h₀ : Starts p₀ s₀) (h : ProcessRun ruptimed Settles s₀ tr s) : Owned s := by
  refine h.trace_invariant (fun _ s => Owned s) ?_ ?_
  · have honly : ∀ (i : ℕ) (q : Proc), s₀.procs[i]? = some q → q = ⟨.start, p₀, none⟩ := by
      intro i q hq
      rw [h₀.procs] at hq
      exact List.mem_singleton.mp (List.mem_of_getElem? hq)
    refine ⟨?_, ?_, fun i q sockfd clfd d hq hpc => ?_, fun i q fd d hq hc => ?_⟩
    · rw [h₀.table, h₀.procs]
      rfl
    · rintro j fd d ⟨q, f, hq, hf, rfl⟩
      rw [honly j q hq] at hf
      exact h₀.below fd f hf
    · rw [honly i q hq] at hpc
      cases hpc
    · rw [honly i q hq] at hc
      cases hc
  · rintro tr s ⟨i, call⟩ s' hr howned hs
    have hsane := sane_run h₀ hr
    obtain ⟨hp, hstep, rfl⟩ := hs
    rename_i k k₁ ps new q q'
    obtain ⟨c, p, log⟩ := q
    obtain ⟨c', p', log'⟩ := q'
    refine ⟨List.length_map _, fun j fd d hd => ?_, fun m q sockfd clfd d hq hpc hd j fd hj => ?_,
      fun m q fd d hq hc hd j fd' hj => ?_⟩
    · show d < k₁.opened
      have hle := (ruptimedStep_effect hstep).opened_le
      rcases openAt_stepped hp hstep hd with ⟨-, hold⟩ | ⟨-, x, hold⟩ | ⟨-, rfl, hlt⟩ | ⟨-, hold, -⟩
      · exact Nat.lt_of_lt_of_le (howned.below _ _ _ hold) hle
      · exact Nat.lt_of_lt_of_le (howned.below _ _ _ hold) hle
      · exact hlt
      · exact Nat.lt_of_lt_of_le (howned.below _ _ _ hold) hle
    · exact accepted_stepped howned hp hstep hq hpc hd hj
    · exact client_stepped howned (hsane i _ hp) hp hstep hq hc hd hj

/-- **A connection is private.** In every run, whatever the calls return: a process that has
become `uptime` has /dev/null at 0 and one connection at 1 and 2, and below the limit nothing
else is open but the listening socket. Nobody else has a descriptor of the connection, except
for the process that has accepted it as long as it is to close that descriptor. -/
theorem connection_is_private (h₀ : Starts p₀ s₀) (h : ProcessRun ruptimed Settles s₀ tr s)
    {i sockfd : ℕ} {q : Proc} (hq : s.procs[i]? = some q) (hpc : q.pc = .serve sockfd .uptime) :
    (∃ f, q.p.fds 0 = some f ∧ f.kind = .devNull) ∧
    (∀ fd, 3 ≤ fd → fd < p₀.limits.closeLimit → fd ≠ sockfd → q.p.fds fd = none) ∧
    ∃ f, q.p.fds 1 = some f ∧ q.p.fds 2 = some f ∧ f.kind = .connection ∧
      ∀ (j fd : ℕ) (r : Proc) (g : OpenFile Kind), s.procs[j]? = some r → r.p.fds fd = some g →
        g.number = f.number → j = i ∨ ∃ sockfd', r.pc = .serve sockfd' (.parentClose fd i) := by
  have hsane := sane_run h₀ h i q hq
  rw [hpc] at hsane
  obtain ⟨hshape, ⟨f, hf₁, hf₂, hkind⟩, hlog⟩ := hsane
  refine ⟨hshape.zero, fun fd hle hlt hne => ?_, f, hf₁, hf₂, hkind,
    fun j fd r g hr hg hnumber => ?_⟩
  · apply hshape.closed fd hle hlt hne
    · rw [hlog]
      simp
    · simp
  · have hclient := (owned_run h₀ h).client i q 1 f.number hq (by rw [hpc]; rfl) (.mk hq hf₁)
    apply (hclient j fd ⟨r, g, hr, hg, hnumber⟩).imp_right
    rintro ⟨r', sockfd', hr', hpc'⟩
    obtain rfl := Option.some.inj (hr.symm.trans hr')
    exact ⟨sockfd', hpc'⟩

/-- The child of the first connection has become `uptime`, its parent has not closed the
connection yet. -/
theorem connection_is_private_child :
    ∃ (tr : List (ℕ × Call)) (s : Processes Kernel Proc) (q r : Proc) (f : OpenFile Kind),
      ProcessRun ruptimed Settles atStart tr s ∧ s.procs[3]? = some q ∧
        q.pc = .serve 3 .uptime ∧ q.p.fds 1 = some f ∧ q.p.fds 2 = some f ∧
        s.procs[2]? = some r ∧ r.pc = .serve 3 (.parentClose 4 3) ∧ r.p.fds 4 = some f ∧
        q.p.fds 4 = none := by
  obtain ⟨tr, s, p, r, h, hchild, hparent, hone, htwo, hfour⟩ := child_connected
  have hexec := h.snoc 3 hchild (.serve (.execl _) (.execl _ _ _ _)) rfl
  have hq := Concurrency.getElem?_stepped_self hchild
    ⟨.serve 3 .uptime, afterExecl p none, none⟩ []
  have hr := Concurrency.getElem?_stepped_of_ne hparent (show 2 ≠ 3 by decide)
    ⟨.serve 3 .uptime, afterExecl p none, none⟩ []
  have hprivate := connection_is_private atStart_starts hexec hq rfl
  exact ⟨_, _, _, _, _, hexec, hq, rfl, hone, htwo, hr, rfl, hfour,
    hprivate.2.1 4 (by decide) (by decide) (by decide)⟩

end Runs

end UbuntuProjects.Ruptimed
