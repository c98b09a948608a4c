import UbuntuProjects.Analysis.Daemonize
import UbuntuProjects.Model.Ruptimed

/-!
# The descriptors of `ruptimed`

What is open in the processes of the server. A socket that cannot be bound or listened on is
closed before the next address is tried, and when a process accepts, nothing is open below the
limit but 0, 1 and 2, the listening socket and a connection to the logger: no connection to a
client is left over (`nothing_left_open`). Behind a failed `execl` 1 and 2 are still open to the
client.
-/

set_option autoImplicit false

namespace UbuntuProjects.Ruptimed

open Concurrency (Processes ProcessRun ProcessStep)
open Memory (Descriptors)
open Daemonize (OpenFile Process DaemonizeStep Knows standard)

/-! ## The shape of a table -/

/-- What is open in a process that serves: below the limit 0, 1 and 2, the listening socket at
`sockfd`, and the connections to the logger and to a client at `log` and `conn`. -/
structure Shape (limit : ℕ) (listening : List ℕ) (sockfd : ℕ) (log conn : Option ℕ)
    (p : Process Kind) : Prop where
  low : ∀ fd < 3, (p.fds fd).isSome
  zero : ∃ f, p.fds 0 = some f ∧ f.kind = .devNull
  socket : ∃ f, p.fds sockfd = some f ∧ f.number ∈ listening
  sockfd_le : 3 ≤ sockfd
  logged : ∀ fd, log = some fd → 3 ≤ fd ∧ fd ≠ sockfd ∧ (p.fds fd).isSome
  connected : ∀ fd, conn = some fd → 3 ≤ fd ∧ fd ≠ sockfd ∧ log ≠ some fd
  closed : ∀ fd, 3 ≤ fd → fd < limit → fd ≠ sockfd → log ≠ some fd → conn ≠ some fd →
    p.fds fd = none

/-- The descriptors 1 and 2 of a process that accepts. `E` says that its `execl` has failed. -/
def Standard (E : Prop) (p : Process Kind) : Prop :=
  ∃ g, p.fds 1 = some g ∧ p.fds 2 = some g ∧ (g.kind = .devNull ∨ g.kind = .connection ∧ E)

/-- The descriptors 1 and 2 are open to one connection. -/
def Connected (p : Process Kind) : Prop :=
  ∃ g, p.fds 1 = some g ∧ p.fds 2 = some g ∧ g.kind = .connection

section Tables

variable {limit sockfd fd n n' : ℕ} {listening listening' : List ℕ} {log log' conn : Option ℕ}
  {p p' : Process Kind} {f : OpenFile Kind} {E E' : Prop}

/-- INTERNAL: the descriptor that is opened next. -/
theorem Shape.lowest? (h : Shape limit listening sockfd log conn p)
    (hlow : p.lowest? = some fd) : 3 ≤ fd ∧ fd ≠ sockfd ∧ log ≠ some fd ∧ p.fds fd = none := by
  have hfree := Process.free_of_lowest? hlow
  refine ⟨?_, ?_, ?_, hfree⟩
  · by_contra hlt
    have hsome := h.low fd (by omega)
    rw [hfree] at hsome
    cases hsome
  · rintro rfl
    obtain ⟨g, hg, -⟩ := h.socket
    rw [hfree] at hg
    cases hg
  · intro hlog
    have hsome := (h.logged fd hlog).2.2
    rw [hfree] at hsome
    cases hsome

/-- INTERNAL: more sockets listen. -/
theorem Shape.mono (h : Shape limit listening sockfd log conn p)
    (hsub : ∀ m ∈ listening, m ∈ listening') : Shape limit listening' sockfd log conn p := by
  obtain ⟨g, hg, hmem⟩ := h.socket
  exact ⟨h.low, h.zero, ⟨g, hg, hsub _ hmem⟩, h.sockfd_le, h.logged, h.connected, h.closed⟩

/-- INTERNAL: only the descriptors matter. -/
theorem Shape.congr (h : Shape limit listening sockfd log conn p) (hfds : p'.fds = p.fds) :
    Shape limit listening sockfd log conn p' := by
  obtain ⟨h₁, h₂, h₃, h₄, h₅, h₆, h₇⟩ := h
  rw [← hfds] at h₁ h₂ h₃ h₅ h₇
  exact ⟨h₁, h₂, h₃, h₄, h₅, h₆, h₇⟩

/-- INTERNAL: a connection is accepted. -/
theorem Shape.accept (h : Shape limit listening sockfd log none p)
    (hlow : p.lowest? = some fd) : Shape limit listening sockfd log (some fd) (p.install fd f) := by
  obtain ⟨hle, hne, hlog, -⟩ := h.lowest? hlow
  have hother : ∀ x ≠ fd, (p.install fd f).fds x = p.fds x :=
    fun x hx => Process.install_of_ne hx
  refine ⟨fun x hx => ?_, ?_, ?_, h.sockfd_le, fun x hx => ?_, fun x hx => ?_,
    fun x hx hlt hs hl hc => ?_⟩
  · rw [hother x (by omega)]
    exact h.low x hx
  · rw [hother 0 (by omega)]
    exact h.zero
  · rw [hother sockfd hne.symm]
    exact h.socket
  · obtain ⟨h₁, h₂, h₃⟩ := h.logged x hx
    refine ⟨h₁, h₂, ?_⟩
    rw [hother x (by rintro rfl; exact hlog hx)]
    exact h₃
  · obtain rfl := Option.some.inj hx
    exact ⟨hle, hne, hlog⟩
  · rw [hother x (by rintro rfl; exact hc rfl)]
    exact h.closed x hx hlt hs hl (by simp)

/-- INTERNAL: the connection is closed. -/
theorem Shape.close (h : Shape limit listening sockfd log (some fd) p) :
    Shape limit listening sockfd log none (p.close fd) := by
  obtain ⟨hle, hne, hlog⟩ := h.connected fd rfl
  have hother : ∀ x ≠ fd, (p.close fd).fds x = p.fds x := fun x hx => Process.close_of_ne hx
  refine ⟨fun x hx => ?_, ?_, ?_, h.sockfd_le, fun x hx => ?_, fun x hx => (by cases hx),
    fun x hx hlt hs hl _ => ?_⟩
  · rw [hother x (by omega)]
    exact h.low x hx
  · rw [hother 0 (by omega)]
    exact h.zero
  · rw [hother sockfd hne.symm]
    exact h.socket
  · obtain ⟨h₁, h₂, h₃⟩ := h.logged x hx
    refine ⟨h₁, h₂, ?_⟩
    rw [hother x (by rintro rfl; exact hlog hx)]
    exact h₃
  · by_cases hxfd : x = fd
    · subst hxfd
      exact Process.close_self
    · rw [hother x hxfd]
      exact h.closed x hx hlt hs hl (fun h => hxfd (Option.some.inj h).symm)

/-- INTERNAL: 1 or 2 is opened to another file. -/
theorem Shape.dup2 (h : Shape limit listening sockfd log conn p) (hfd : fd = 1 ∨ fd = 2) :
    Shape limit listening sockfd log conn (p.install fd f) := by
  have hother : ∀ x ≠ fd, (p.install fd f).fds x = p.fds x :=
    fun x hx => Process.install_of_ne hx
  have hle := h.sockfd_le
  refine ⟨fun x hx => ?_, ?_, ?_, hle, fun x hx => ?_, h.connected, fun x hx hlt hs hl hc => ?_⟩
  · by_cases hxfd : x = fd
    · subst hxfd
      rw [Process.install_self]
      rfl
    · rw [hother x hxfd]
      exact h.low x hx
  · rw [hother 0 (by omega)]
    exact h.zero
  · rw [hother sockfd (by omega)]
    exact h.socket
  · obtain ⟨h₁, h₂, h₃⟩ := h.logged x hx
    refine ⟨h₁, h₂, ?_⟩
    rw [hother x (by omega)]
    exact h₃
  · rw [hother x (by omega)]
    exact h.closed x hx hlt hs hl hc

/-- INTERNAL: `syslog`. -/
theorem Shape.syslog (h : Shape limit listening sockfd log none p)
    (hs : Syslog log n p n' p' log') : Shape limit listening sockfd log' none p' := by
  cases hs with
  | sent => exact h
  | connected hnone hlow =>
    obtain ⟨hle, hne, -, -⟩ := h.lowest? hlow
    obtain ⟨h₁, h₂, h₃, h₄, h₅, h₆, h₇⟩ := h.accept (f := ⟨.log, n⟩) hlow
    refine ⟨h₁, h₂, h₃, h₄, fun x hx => ?_, fun x hx => (by cases hx),
      fun x hx hlt hs hl _ => ?_⟩
    · obtain rfl := Option.some.inj hx
      refine ⟨hle, hne, ?_⟩
      rw [Process.install_self]
      rfl
    · apply h₇ x hx hlt hs _ hl
      rw [hnone]
      simp

/-- INTERNAL: `execl` closes the connection to the logger. -/
theorem Shape.execl (h : Shape limit listening sockfd log none p) :
    Shape limit listening sockfd none none (afterExecl p log) := by
  cases log with
  | none => exact h
  | some fd =>
    obtain ⟨hle, hne, -⟩ := h.logged fd rfl
    have hshape : Shape limit listening sockfd none (some fd) p := by
      refine ⟨h.low, h.zero, h.socket, h.sockfd_le, fun x hx => (by cases hx), fun x hx => ?_,
        fun x hx hlt hs _ hc => h.closed x hx hlt hs hc (by simp)⟩
      obtain rfl := Option.some.inj hx
      exact ⟨hle, hne, by simp⟩
    exact hshape.close

/-- INTERNAL: 1 and 2 stay what they are. -/
theorem Standard.congr (h : Standard E p) (h₁ : p'.fds 1 = p.fds 1) (h₂ : p'.fds 2 = p.fds 2)
    (hE : E → E') : Standard E' p' := by
  obtain ⟨g, hg₁, hg₂, hkind⟩ := h
  exact ⟨g, h₁.trans hg₁, h₂.trans hg₂, hkind.imp_right (And.imp_right hE)⟩

/-- INTERNAL: 1 and 2 stay what they are. -/
theorem Connected.congr (h : Connected p) (h₁ : p'.fds 1 = p.fds 1) (h₂ : p'.fds 2 = p.fds 2) :
    Connected p' := by
  obtain ⟨g, hg₁, hg₂, hkind⟩ := h
  exact ⟨g, h₁.trans hg₁, h₂.trans hg₂, hkind⟩

end Tables

/-! ## The processes -/

/-- What is open in a process in `serve`. `E` says that its `execl` has failed. -/
def Serves (limit : ℕ) (listening : List ℕ) (E : Prop) (sockfd : ℕ) (log : Option ℕ)
    (p : Process Kind) : Server.Pc → Prop
  | .accepting => Shape limit listening sockfd log none p ∧ Standard E p
  | .forking clfd => Shape limit listening sockfd log (some clfd) p ∧ Standard E p ∧
    ∃ f, p.fds clfd = some f ∧ f.kind = .connection
  | .dupOut clfd => Shape limit listening sockfd log (some clfd) p ∧
    ∃ f, p.fds clfd = some f ∧ f.kind = .connection
  | .dupErr clfd => Shape limit listening sockfd log (some clfd) p ∧
    ∃ f, p.fds clfd = some f ∧ p.fds 1 = some f ∧ f.kind = .connection
  | .childClose clfd => Shape limit listening sockfd log (some clfd) p ∧ Connected p
  | .exec => Shape limit listening sockfd log none p ∧ Connected p
  | .execReturned => Shape limit listening sockfd log none p ∧ Connected p ∧ E
  | .parentClose clfd _ => Shape limit listening sockfd log (some clfd) p ∧ Standard E p
  | .waiting _ => Shape limit listening sockfd log none p ∧ Standard E p
  | .uptime => Shape limit listening sockfd log none p ∧ Connected p ∧ log = none
  | _ => True

section Serve

variable {limit sockfd : ℕ} {listening listening' : List ℕ} {log log' : Option ℕ}
  {p p' : Process Kind} {E E' : Prop} {k k' : Kernel} {c c' : Server.Pc} {call : Server.Call}
  {table new : List Server.Pc}

/-- INTERNAL: more sockets listen, and more has happened. -/
theorem Serves.mono (h : Serves limit listening E sockfd log p c)
    (hsub : ∀ m ∈ listening, m ∈ listening') (hE : E → E') :
    Serves limit listening' E' sockfd log p c := by
  cases c with
  | accepting | waiting | parentClose => exact ⟨h.1.mono hsub, h.2.congr rfl rfl hE⟩
  | forking => exact ⟨h.1.mono hsub, h.2.1.congr rfl rfl hE, h.2.2⟩
  | dupOut | dupErr | childClose | exec => exact ⟨h.1.mono hsub, h.2⟩
  | execReturned => exact ⟨h.1.mono hsub, h.2.1, hE h.2.2⟩
  | uptime => exact ⟨h.1.mono hsub, h.2⟩
  | failed | exiting | exited => trivial

/-- INTERNAL: `syslog` does not touch 1 and 2. -/
theorem Syslog.low {n n' : ℕ} (h : Shape limit listening sockfd log none p)
    (hs : Syslog log n p n' p' log') : p'.fds 1 = p.fds 1 ∧ p'.fds 2 = p.fds 2 := by
  cases hs with
  | sent => exact ⟨rfl, rfl⟩
  | connected _ hlow =>
    have hle := (h.lowest? hlow).1
    exact ⟨Process.install_of_ne (by omega), Process.install_of_ne (by omega)⟩

/-- INTERNAL: `execl` does not touch 1 and 2. -/
theorem Shape.low_execl (h : Shape limit listening sockfd log none p) :
    (afterExecl p log).fds 1 = p.fds 1 ∧ (afterExecl p log).fds 2 = p.fds 2 := by
  cases log with
  | none => exact ⟨rfl, rfl⟩
  | some fd =>
    have hle := (h.logged fd rfl).1
    exact ⟨Process.close_of_ne (by omega), Process.close_of_ne (by omega)⟩

/-- What one step in `serve` keeps of the descriptors. -/
theorem serve_step (h : Serves limit k.listening E sockfd log p c)
    (hs : Server.serve table c call c' new)
    (hd : ServeDescriptors sockfd k c p log call k' p' log') (hE : E → E')
    (hexecl : call = .execl false → E') :
    Serves limit k'.listening E' sockfd log' p' c' ∧
      ∀ d ∈ new, ∀ F, Serves limit k'.listening F sockfd log' p'.forked d := by
  have hnone : ∀ d ∈ ([] : List Server.Pc), ∀ F,
      Serves limit k'.listening F sockfd log' p'.forked d := fun d hd => absurd hd List.not_mem_nil
  cases hs with
  | accept =>
    cases hd with
    | accept _ _ _ hlow =>
      obtain ⟨hshape, hstd⟩ := h
      have hle := (hshape.lowest? hlow).1
      refine ⟨⟨hshape.accept hlow, ?_, _, Process.install_self, rfl⟩, hnone⟩
      exact hstd.congr (Process.install_of_ne (by omega)) (Process.install_of_ne (by omega)) hE
  | acceptFails => exact ⟨trivial, hnone⟩
  | fork =>
    cases hd
    obtain ⟨hshape, hstd, hconn⟩ := h
    refine ⟨⟨hshape, hstd.congr rfl rfl hE⟩, fun d hd F => ?_⟩
    rw [List.mem_singleton.mp hd]
    exact ⟨hshape.congr rfl, hconn⟩
  | forkFails | dupOutFails | dupErrFails => exact ⟨trivial, hnone⟩
  | dupOut _ clfd =>
    cases hd with
    | dup2 _ hc hf =>
      obtain ⟨hshape, g, hg, hkind⟩ := h
      have hle := (hshape.connected clfd rfl).1
      obtain hc | hc := hc
      · cases hc
        obtain rfl := Option.some.inj (hg.symm.trans hf)
        refine ⟨⟨hshape.dup2 (.inl rfl), g, ?_, Process.install_self, hkind⟩, hnone⟩
        exact (Process.install_of_ne (show clfd ≠ 1 by omega)).trans hg
      · cases hc
  | dupErr _ clfd =>
    cases hd with
    | dup2 _ hc hf =>
      obtain ⟨hshape, g, hg, hout, hkind⟩ := h
      obtain hc | hc := hc
      · cases hc
      · cases hc
        obtain rfl := Option.some.inj (hg.symm.trans hf)
        refine ⟨⟨hshape.dup2 (.inr rfl), g, ?_, Process.install_self, hkind⟩, hnone⟩
        exact (Process.install_of_ne (show 1 ≠ 2 by decide)).trans hout
  | childClose _ clfd =>
    cases hd
    obtain ⟨hshape, hconn⟩ := h
    have hle := (hshape.connected clfd rfl).1
    refine ⟨⟨hshape.close, ?_⟩, hnone⟩
    exact hconn.congr (Process.close_of_ne (by omega)) (Process.close_of_ne (by omega))
  | execl =>
    cases hd
    obtain ⟨hshape, hconn⟩ := h
    exact ⟨⟨hshape.execl, hconn.congr hshape.low_execl.1 hshape.low_execl.2, rfl⟩, hnone⟩
  | execlFails =>
    cases hd
    exact ⟨⟨h.1, h.2, hexecl rfl⟩, hnone⟩
  | execReturned =>
    cases hd with
    | syslog _ _ hsyslog =>
      obtain ⟨hshape, ⟨g, hg₁, hg₂, hkind⟩, hfailed⟩ := h
      obtain ⟨h₁, h₂⟩ := hsyslog.low hshape
      exact ⟨⟨hshape.syslog hsyslog, g, h₁.trans hg₁, h₂.trans hg₂, .inr ⟨hkind, hE hfailed⟩⟩,
        hnone⟩
  | parentClose _ clfd =>
    cases hd
    obtain ⟨hshape, hstd⟩ := h
    have hle := (hshape.connected clfd rfl).1
    refine ⟨⟨hshape.close, ?_⟩, hnone⟩
    exact hstd.congr (Process.close_of_ne (by omega)) (Process.close_of_ne (by omega)) hE
  | waitpid | waitpidFails =>
    cases hd
    exact ⟨⟨h.1, h.2.congr rfl rfl hE⟩, hnone⟩
  | failed | exiting => exact ⟨trivial, hnone⟩

end Serve

/-! ## From `main` to `serve` -/

/-- The descriptors that `daemonize` leaves of those of `p₀`, with /dev/null at 0, 1 and 2. -/
def Ready (p₀ p : Process Kind) : Prop :=
  ∃ f : OpenFile Kind, f.kind = .devNull ∧ p.fds = standard p₀.fds p₀.limits.closeLimit f

/-- The same with a socket, which is `G`. -/
def Opened (p₀ p : Process Kind) (fd : ℕ) (G : OpenFile Kind → Prop) : Prop :=
  ∃ f g : OpenFile Kind, f.kind = .devNull ∧ 3 ≤ fd ∧ G g ∧
    standard p₀.fds p₀.limits.closeLimit f fd = none ∧
    p.fds = (standard p₀.fds p₀.limits.closeLimit f).install fd g

/-- What is open in a process in `initserver`. -/
def Inits (p₀ : Process Kind) (listening : List ℕ) (p : Process Kind) : InitPc → Prop
  | .socket => Ready p₀ p
  | .bind fd => Opened p₀ p fd fun _ => True
  | .listen fd => Opened p₀ p fd fun _ => True
  | .errout fd => Opened p₀ p fd fun _ => True
  | .returned none => Ready p₀ p
  | .returned (some fd) => Opened p₀ p fd fun g => g.number ∈ listening

/-- What is open in the process `i`. -/
def Sane (p₀ : Process Kind) (listening : List ℕ) (E : Prop) (i : ℕ) (p : Process Kind)
    (log : Option ℕ) : Pc → Prop
  | .start => p.limits = p₀.limits ∧ p.ignored = p₀.ignored ∧ p.fds = p₀.fds ∧ log = none
  | .daemonize c => (∃ leader, Knows .devNull p₀ leader i c p) ∧ log = none
  | .addresses _ => Ready p₀ p ∧ log = none
  | .initserver _ c => Inits p₀ listening p c ∧ log = none
  | .serve sockfd c => Serves p₀.limits.closeLimit listening E sockfd log p c
  | _ => True

section Main

variable {p₀ p p' : Process Kind} {k k' : Kernel} {listening listening' : List ℕ}
  {log log' : Option ℕ} {E E' : Prop} {i fd : ℕ}

/-- INTERNAL: more sockets listen. -/
theorem Inits.mono {c : InitPc} (h : Inits p₀ listening p c)
    (hsub : ∀ m ∈ listening, m ∈ listening') : Inits p₀ listening' p c := by
  cases c with
  | socket | bind | listen | errout => exact h
  | returned r =>
    cases r with
    | none => exact h
    | some fd =>
      obtain ⟨f, g, hf, hle, hg, hfree, hfds⟩ := h
      exact ⟨f, g, hf, hle, hsub _ hg, hfree, hfds⟩

/-- INTERNAL: more sockets listen, and more has happened. -/
theorem Sane.mono {c : Pc} (h : Sane p₀ listening E i p log c)
    (hsub : ∀ m ∈ listening, m ∈ listening') (hE : E → E') :
    Sane p₀ listening' E' i p log c := by
  cases c with
  | start | daemonize | addresses => exact h
  | initserver => exact ⟨h.1.mono hsub, h.2⟩
  | serve => exact Serves.mono h hsub hE
  | failed | exiting | exited => trivial

/-- INTERNAL: a process that is ready has 0, 1 and 2 open. -/
theorem three_le_of_lowest? {f : OpenFile Kind} {limit : ℕ}
    (hfds : p.fds = standard p₀.fds limit f) (hlow : p.lowest? = some fd) : 3 ≤ fd := by
  by_contra hlt
  have hfree := Process.free_of_lowest? hlow
  rw [hfds, Daemonize.standard_of_lt _ _ f (by omega)] at hfree
  cases hfree

/-- What one step in `initserver` keeps of the descriptors. -/
theorem initserver_step {c c' : InitPc} {call : InitCall} (h : Inits p₀ k.listening p c)
    (hs : InitserverStep .stream k (c, p) call k' (c', p')) : Inits p₀ k'.listening p' c' := by
  cases hs with
  | socket hlow =>
    obtain ⟨f, hf, hfds⟩ := h
    refine ⟨f, ⟨.socket, k.opened⟩, hf, three_le_of_lowest? hfds hlow, trivial, ?_, ?_⟩
    · rw [← hfds]
      exact Process.free_of_lowest? hlow
    · rw [Process.install, hfds]
  | socketFails | bind | bindFails | listenFails => exact h
  | bindOnly _ _ hlistens => cases hlistens
  | listen hg =>
    obtain ⟨f, g, hf, hle, -, hfree, hfds⟩ := h
    rw [hfds, Descriptors.install_self] at hg
    obtain rfl := Option.some.inj hg
    exact ⟨f, g, hf, hle, List.mem_cons_self, hfree, hfds⟩
  | @close _ fd =>
    obtain ⟨f, g, hf, hle, -, hfree, hfds⟩ := h
    refine ⟨f, hf, ?_⟩
    funext x
    by_cases hx : x = fd
    · rw [hx, Process.close_self, hfree]
    · rw [Process.close_of_ne hx, hfds, Descriptors.install_of_ne hx]

/-- INTERNAL: what `serve` starts with. -/
theorem serves_of_opened (h : Opened p₀ p fd fun g => g.number ∈ listening) :
    Serves p₀.limits.closeLimit listening E fd none p .accepting := by
  obtain ⟨f, g, hf, hle, hg, hfree, hfds⟩ := h
  have hlow : ∀ x < 3, p.fds x = some f := by
    intro x hx
    rw [hfds, Descriptors.install_of_ne (by omega)]
    exact Daemonize.standard_of_lt _ _ f hx
  refine ⟨⟨fun x hx => ?_, ⟨f, hlow 0 (by omega), hf⟩, ⟨g, ?_, hg⟩, hle, fun x hx => (by cases hx),
    fun x hx => (by cases hx), fun x hx hlt hne _ _ => ?_⟩,
    ⟨f, hlow 1 (by omega), hlow 2 (by omega), .inl hf⟩⟩
  · rw [hlow x hx]
    rfl
  · rw [hfds, Descriptors.install_self]
  · rw [hfds, Descriptors.install_of_ne hne, Daemonize.standard_of_le _ _ f hx, if_pos hlt]

/-- What one step keeps of the descriptors. -/
theorem ruptimedStep_sane {c c' : Pc} {call : Call} {new : List Proc}
    (h : Sane p₀ k.listening E i p log c)
    (hs : RuptimedStep i k ⟨c, p, log⟩ call k' ⟨c', p', log'⟩ new) (hE : E → E')
    (hexecl : call = .serve (.execl false) → E') :
    Sane p₀ k'.listening E' i p' log' c' ∧
      ∀ q ∈ new, ∀ j F, Sane p₀ k'.listening F j q.p q.log q.pc := by
  have hnone : ∀ q ∈ ([] : List Proc), ∀ j F, Sane p₀ k'.listening F j q.p q.log q.pc :=
    fun q hq => absurd hq List.not_mem_nil
  cases hs with
  | refused | getaddrinfoFails | noAddress | failed | exit => exact ⟨trivial, hnone⟩
  | main => exact ⟨⟨⟨0, h.1, h.2.1, h.2.2.1⟩, h.2.2.2⟩, hnone⟩
  | daemonize _ hs =>
    obtain ⟨⟨leader, hknows⟩, rfl⟩ := h
    refine ⟨⟨⟨leader, Daemonize.daemonizeStep_knows hknows hs⟩, rfl⟩, fun q hq j _ => ?_⟩
    obtain ⟨r, hr, rfl⟩ := List.mem_map.mp hq
    exact ⟨⟨i, Daemonize.daemonizeStep_forks hknows j hs r hr⟩, rfl⟩
  | getaddrinfo =>
    obtain ⟨⟨leader, -, -, f, hf, hfds⟩, rfl⟩ := h
    exact ⟨⟨⟨f, hf, hfds⟩, rfl⟩, hnone⟩
  | nextAddress => exact ⟨h, hnone⟩
  | initserver _ _ hs => exact ⟨⟨initserver_step h.1 hs, h.2⟩, hnone⟩
  | initserverFailed => exact ⟨h, hnone⟩
  | serves =>
    obtain ⟨hopened, rfl⟩ := h
    exact ⟨serves_of_opened hopened, hnone⟩
  | serve hs hd =>
    obtain ⟨hself, hnew⟩ := serve_step h hs hd hE fun hcall => hexecl (congrArg _ hcall)
    refine ⟨hself, fun q hq _ F => ?_⟩
    obtain ⟨d, hd, rfl⟩ := List.mem_map.mp hq
    exact hnew d hd F

/-- INTERNAL: a socket that listens goes on listening. -/
theorem ruptimedStep_listening {q q' : Proc} {call : Call} {new : List Proc}
    (hs : RuptimedStep i k q call k' q' new) : ∀ m ∈ k.listening, m ∈ k'.listening := by
  cases hs with
  | initserver _ _ hs =>
    cases hs with
    | listen => exact fun m hm => List.mem_cons_of_mem _ hm
    | _ => exact fun m hm => hm
  | serve _ hd =>
    cases hd <;> exact fun m hm => hm
  | _ => exact fun m hm => hm

end Main

section Runs

variable {p₀ : Process Kind} {s₀ s : Processes Kernel Proc} {tr : List (ℕ × Call)}

/-- What is open in every process, in every run. -/
theorem sane_run (h₀ : Starts p₀ s₀) (h : ProcessRun ruptimed Settles s₀ tr s) :
    ∀ (i : ℕ) (q : Proc), s.procs[i]? = some q →
      Sane p₀ s.kern.listening ((i, .serve (.execl false)) ∈ tr) i q.p q.log q.pc := by
  refine h.trace_invariant (fun tr s => ∀ (i : ℕ) (q : Proc), s.procs[i]? = some q →
    Sane p₀ s.kern.listening ((i, .serve (.execl false)) ∈ tr) i q.p q.log q.pc) ?_ ?_
  · intro i q hq
    rw [h₀.procs] at hq
    obtain rfl := List.mem_singleton.mp (List.mem_of_getElem? hq)
    exact ⟨rfl, rfl, rfl, rfl⟩
  · rintro tr s ⟨i, call⟩ s' - hI hs
    obtain ⟨hp, hstep, rfl⟩ := hs
    rename_i k k₁ ps new q q'
    obtain ⟨c, p, log⟩ := q
    obtain ⟨c', p', log'⟩ := q'
    have hsub := ruptimedStep_listening hstep
    have hgrow : ∀ {j : ℕ}, (j, Call.serve (.execl false)) ∈ tr →
        (j, Call.serve (.execl false)) ∈ tr ++ [(i, call)] := fun hE => List.mem_append_left _ hE
    have hself := ruptimedStep_sane (hI i _ hp) hstep hgrow fun hcall => by simp [hcall]
    intro j r hr
    rcases Concurrency.getElem?_stepped hp hr with ⟨rfl, rfl⟩ | ⟨-, hr⟩ | ⟨-, hr⟩
    · exact hself.1
    · exact (hI j r hr).mono hsub hgrow
    · exact hself.2 r (List.mem_of_getElem? hr) j _

/-- **Nothing is left open.** In every run, whatever the calls return: between two addresses
nothing is open below the limit but /dev/null at 0, 1 and 2. A process that is to call `accept`
has /dev/null at 0 and a socket that listens at `sockfd`; 1 and 2 are open to the same file,
which is /dev/null or, if an `execl` of the process has failed, a connection; and every other
descriptor below the limit is closed, except for the one of its connection to the logger. -/
theorem nothing_left_open (h₀ : Starts p₀ s₀) (h : ProcessRun ruptimed Settles s₀ tr s) {i : ℕ}
    {q : Proc} (hq : s.procs[i]? = some q) :
    (∀ n, q.pc = .addresses n → (∃ f, f.kind = .devNull ∧ ∀ fd < 3, q.p.fds fd = some f) ∧
      ∀ fd, 3 ≤ fd → fd < p₀.limits.closeLimit → q.p.fds fd = none) ∧
    ∀ sockfd, q.pc = .serve sockfd .accepting →
      (∃ f, q.p.fds 0 = some f ∧ f.kind = .devNull) ∧
      (∃ f, q.p.fds sockfd = some f ∧ f.number ∈ s.kern.listening) ∧
      (∃ g, q.p.fds 1 = some g ∧ q.p.fds 2 = some g ∧
        (g.kind = .devNull ∨ g.kind = .connection ∧ (i, .serve (.execl false)) ∈ tr)) ∧
      ∀ fd, 3 ≤ fd → fd < p₀.limits.closeLimit → fd ≠ sockfd → q.log ≠ some fd →
        q.p.fds fd = none := by
  have hsane := sane_run h₀ h i q hq
  refine ⟨fun n hpc => ?_, fun sockfd hpc => ?_⟩
  · rw [hpc] at hsane
    obtain ⟨⟨f, hf, hfds⟩, -⟩ := hsane
    refine ⟨⟨f, hf, fun fd hfd => ?_⟩, fun fd hle hlt => ?_⟩
    · rw [hfds]
      exact Daemonize.standard_of_lt _ _ f hfd
    · rw [hfds, Daemonize.standard_of_le _ _ f hle, if_pos hlt]
  · rw [hpc] at hsane
    obtain ⟨hshape, hstd⟩ := hsane
    refine ⟨hshape.zero, hshape.socket, hstd, fun fd hle hlt hne hlog => ?_⟩
    exact hshape.closed fd hle hlt hne hlog (by simp)

/-- A process that is started with five descriptors at most. -/
def launched : Process Kind where
  fds := .empty
  limits := ⟨5, some 5, by simp⟩
  umask := 18
  cwd := "/root"
  session := 0
  terminal := true
  ignored := fun _ => false
  blocked := fun _ => false
  pending := fun _ => false

/-- It is started as `ruptimed`. -/
def atStart : Processes Kernel Proc := ⟨⟨0, [], [.exiting 1]⟩, [⟨.start, launched, none⟩]⟩

/-- INTERNAL: as the theorems ask for. -/
theorem atStart_starts : Starts launched atStart :=
  ⟨rfl, fun _ _ hf => (by cases hf), rfl⟩

/-- INTERNAL: the processes run `daemonize`, while nobody listens. -/
theorem embeds_ruptimed :
    Daemonize.Embeds ruptimed Settles .devNull (fun q => ⟨.daemonize q.1, q.2, none⟩)
      fun n ps => ⟨n, [], ps.map fun q => q.pc.seen⟩ :=
  ⟨fun _ hs => ⟨_, _, .daemonize _ _ hs, fun _ => rfl⟩⟩

/-- INTERNAL: a run in which the child of the first connection has its copies of it. -/
theorem child_connected :
    ∃ (tr : List (ℕ × Call)) (s : Processes Kernel Proc) (p r : Process Kind),
      ProcessRun ruptimed Settles atStart tr s ∧ s.procs[3]? = some ⟨.serve 3 .exec, p, none⟩ ∧
        s.procs[2]? = some ⟨.serve 3 (.parentClose 4 3), r, none⟩ ∧
        p.fds 1 = some ⟨.connection, 2⟩ ∧ p.fds 2 = some ⟨.connection, 2⟩ ∧
        r.fds 4 = some ⟨.connection, 2⟩ := by
  have h₀ : ProcessRun ruptimed Settles atStart [] _ := .nil
  have h₁ := h₀.snoc 0 rfl (.main _ _ _) rfl
  obtain ⟨_, h₂⟩ := Daemonize.daemonize_succeeds embeds_ruptimed (i := 0) ⟨_, h₁⟩ rfl
    (show 3 ≤ 5 by decide)
  have h₃ := h₂.snoc 2 rfl (.getaddrinfo _ _ _ 1) rfl
  have h₄ := h₃.snoc 2 rfl (.nextAddress _ _ _ 0) rfl
  have h₅ := h₄.snoc 2 rfl (.initserver _ _ (.socket _ (show Process.lowest? _ = some 3 from rfl)))
    rfl
  have h₆ := h₅.snoc 2 rfl (.initserver _ _ (.bind _ _ _ rfl)) rfl
  have h₇ := h₆.snoc 2 rfl (.initserver _ _ (.listen _ rfl)) rfl
  have h₈ := h₇.snoc 2 rfl (.serves _ _ _ _ _) rfl
  have h₉ := h₈.snoc 2 rfl (.serve (.accept _ 4)
    (.accept _ _ rfl (by decide) (show Process.lowest? _ = some 4 from rfl))) rfl
  have h₁₀ := h₉.snoc 2 rfl (.serve (.fork _ 4) (.fork _ _ _ _ _)) rfl
  have h₁₁ := h₁₀.snoc 3 rfl (.serve (.dupOut _ 4) (.dup2 _ _ (.inl rfl) rfl)) rfl
  have h₁₂ := h₁₁.snoc 3 rfl (.serve (.dupErr _ 4) (.dup2 _ _ (.inr rfl) rfl)) rfl
  have h₁₃ := h₁₂.snoc 3 rfl (.serve (.childClose _ 4) (.close _ _ _ _ _)) rfl
  exact ⟨_, _, _, _, h₁₃, rfl, rfl, rfl, rfl, rfl⟩

/-- The child of the first connection comes back to `accept` when its `execl` has failed. -/
theorem nothing_left_open_child :
    ∃ (tr : List (ℕ × Call)) (s : Processes Kernel Proc) (q : Proc),
      ProcessRun ruptimed Settles atStart tr s ∧ s.procs[3]? = some q ∧
        q.pc = .serve 3 .accepting ∧
        (∃ g, q.p.fds 1 = some g ∧ q.p.fds 2 = some g ∧
          (g.kind = .devNull ∨ g.kind = .connection ∧ (3, .serve (.execl false)) ∈ tr)) ∧
        q.p.fds 4 = none := by
  obtain ⟨tr, s, p, -, h, hchild, -⟩ := child_connected
  have hfails := h.snoc 3 hchild (.serve (.execlFails _) (.execlFails _ _ _ _)) rfl
  have hreturned := Concurrency.getElem?_stepped_self hchild ⟨.serve 3 .execReturned, p, none⟩ []
  have hlogs := hfails.snoc 3 hreturned
    (.serve (.execReturned _) (.syslog _ _ _ (.sent _ _))) rfl
  have hq := Concurrency.getElem?_stepped_self hreturned ⟨.serve 3 .accepting, p, none⟩ []
  obtain ⟨-, -, hstd, hclosed⟩ := (nothing_left_open atStart_starts hlogs hq).2 3 rfl
  exact ⟨_, _, _, hlogs, hq, rfl, hstd,
    hclosed 4 (by decide) (by decide) (by decide) (by simp)⟩

end Runs

end UbuntuProjects.Ruptimed
