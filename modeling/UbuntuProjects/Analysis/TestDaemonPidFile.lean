import UbuntuProjects.Analysis.TestDaemonLock

/-!
# The pid in the lock file

What the lock file contains while a daemon runs: the part of its pid that `write` has written,
over what was there before if `ftruncate` has failed. If all of it has been written, a reader
of the file gets the pid of the process that has the lock (`lock_file_names_holder`), whatever
the processes do that are started meanwhile.
-/

set_option autoImplicit false

namespace UbuntuProjects.TestDaemon

open Concurrency (Processes ProcessRun ProcessStep)
open Daemonize (Process)
open Memory (CString decimal ofDecimal)

/-- `buf` is long enough for the text.
SRCLINE: test_daemon.c:13, 30 -/
theorem length_pidText_le {pid : ℕ} (h : pid < 10 ^ 15) : (pidText pid).length ≤ 16 := by
  have hdecimal := Memory.length_decimal_le (by omega) h
  unfold pidText
  rw [List.length_append, List.length_singleton]
  exact Nat.succ_le_succ hdecimal

/-- INTERNAL: the pid is read back, whatever follows it. -/
theorem ofDecimal_pidText (pid : ℕ) (bs : List UInt8) :
    ofDecimal (CString.ofBytes (pidText pid ++ bs)) = pid := by
  have hofBytes : CString.ofBytes (pidText pid ++ bs) = decimal pid := by
    unfold pidText
    rw [List.append_assoc, CString.ofBytes_append]
    ext1
    exact List.append_nil _
  rw [hofBytes, Memory.ofDecimal_decimal]

/-- The process has not come to the lock. -/
def Pc.Fresh : Pc → Prop
  | .daemonize _ => True
  | .flock _ => True
  | _ => False

/-- The process is about to truncate the file or to write to it. -/
def Pc.Filling : Pc → Prop
  | .ftruncate _ => True
  | .write _ => True
  | _ => False

/-- What the process `i` has to do with the lock file, if it has written the numbers of bytes
in `W`, and if it has truncated the file or not. -/
def Filed (W : ℕ → Prop) (T : Prop) (file : Option (List UInt8)) (i : ℕ) : Pc → Prop
  | .daemonize _ => (∀ n, ¬W n) ∧ ¬T
  | .flock _ => (∀ n, ¬W n) ∧ ¬T ∧ file.isSome
  | .ftruncate _ => (∀ n, ¬W n) ∧ ¬T ∧ file.isSome
  | .write _ => (∀ n, ¬W n) ∧ ∃ bs, file = some bs ∧ (T → bs = [])
  | _ => ∀ n, W n → ∃ bs, file = some ((pidText i).take n ++ bs) ∧ (T → bs = [])

section Steps

variable {W W' : ℕ → Prop} {T T' : Prop} {file file' : Option (List UInt8)} {i : ℕ} {c : Pc}

/-- INTERNAL: a file that has been created stays what it is. -/
theorem Filed.mono (h : Filed W T file i c) (hfile : ∀ bs, file = some bs → file' = some bs) :
    Filed W T file' i c := by
  have hsome : file.isSome → file'.isSome := by
    intro hs
    obtain ⟨bs, hbs⟩ := Option.isSome_iff_exists.mp hs
    rw [hfile bs hbs]
    rfl
  cases c with
  | daemonize => exact h
  | flock | ftruncate => exact ⟨h.1, h.2.1, hsome h.2.2⟩
  | write =>
    obtain ⟨hW, bs, hbs, hT⟩ := h
    exact ⟨hW, bs, hfile bs hbs, hT⟩
  | close | sigaction | sigmask | create | failed | exiting | serving | exited | killed =>
    intro n hn
    obtain ⟨bs, hbs, hT⟩ := h n hn
    exact ⟨bs, hfile _ hbs, hT⟩

/-- INTERNAL: before the lock the contents of the file do not matter. -/
theorem Filed.fresh (h : Filed W T file i c) (hc : c.Fresh) (hsome : file.isSome → file'.isSome) :
    Filed W T file' i c := by
  cases c with
  | daemonize => exact h
  | flock => exact ⟨h.1, h.2.1, hsome h.2.2⟩
  | _ => exact hc.elim

/-- INTERNAL: what has been written is in the file. -/
theorem Filed.written (h : Filed W T file i c) {n : ℕ} (hn : W n) :
    ∃ bs, file = some ((pidText i).take n ++ bs) ∧ (T → bs = []) := by
  cases c with
  | daemonize | flock | ftruncate | write => exact absurd hn (h.1 n)
  | close | sigaction | sigmask | create | failed | exiting | serving | exited | killed =>
    exact h n hn

end Steps

section Traces

variable {tr : List (ℕ × Call)} {i j : ℕ} {e : ℕ × Call}

/-- The process has written `n` bytes. -/
def Wrote (tr : List (ℕ × Call)) (i n : ℕ) : Prop := (i, .write n) ∈ tr

/-- The process has truncated the file. -/
def Truncated (tr : List (ℕ × Call)) (i : ℕ) : Prop := (i, .ftruncate true) ∈ tr

/-- INTERNAL: a call that writes nothing. -/
theorem wrote_snoc (h : ∀ n, e ≠ (i, .write n)) : Wrote (tr ++ [e]) i = Wrote tr i := by
  funext n
  unfold Wrote
  rw [List.mem_append, List.mem_singleton, eq_iff_iff]
  exact or_iff_left (Ne.symm (h n))

/-- INTERNAL: a call that truncates nothing. -/
theorem truncated_snoc (h : e ≠ (i, .ftruncate true)) :
    Truncated (tr ++ [e]) i = Truncated tr i := by
  unfold Truncated
  rw [List.mem_append, List.mem_singleton, eq_iff_iff]
  exact or_iff_left (Ne.symm h)

variable {k k' : Kernel} {c c' : Pc} {p p' : Process Kind} {l : Call}
  {new : List (Pc × Process Kind)}

/-- INTERNAL: nobody comes back to the lock. -/
theorem daemonStep_fresh (h : DaemonStep i k (c, p) l k' (c', p') new) (hc : c'.Fresh) :
    c.Fresh := by
  cases h with
  | daemonize | opened => trivial
  | pending | discarded => exact hc
  | _ => exact hc.elim

/-- What a step makes of the lock file. -/
theorem daemonStep_lockFile (h : DaemonStep i k (c, p) l k' (c', p') new) :
    (∀ bs, k.lockFile = some bs → k'.lockFile = some bs) ∨
      c.Filling ∧ (k.lockFile.isSome → k'.lockFile.isSome) := by
  cases h with
  | opened =>
    refine .inl fun bs hbs => ?_
    rw [hbs]
    rfl
  | ftruncate | write => exact .inr ⟨trivial, fun hs => by simpa using hs⟩
  | _ => exact .inl fun _ hbs => hbs

/-- INTERNAL: before the file is written the lock has been granted. -/
theorem daemonStep_filling (h : DaemonStep i k (c, p) l k' (c', p') new) (hc : c'.Filling) :
    l = .flock .granted ∨ c.Filling := by
  cases h with
  | granted => exact .inl rfl
  | ftruncate | ftruncateFails => exact .inr trivial
  | pending | discarded => exact .inr hc
  | _ => exact hc.elim

/-- What a step of the process makes of its part in the lock file. -/
theorem daemonStep_filed (h : Filed (Wrote tr i) (Truncated tr i) k.lockFile i c)
    (hs : DaemonStep i k (c, p) l k' (c', p') new) :
    Filed (Wrote (tr ++ [(i, l)]) i) (Truncated (tr ++ [(i, l)]) i) k'.lockFile i c' := by
  by_cases hl : (∃ n, l = .write n) ∨ l = .ftruncate true
  · cases hs with
    | ftruncate =>
      obtain ⟨hW, -, hsome⟩ := h
      obtain ⟨bs, hbs⟩ := Option.isSome_iff_exists.mp hsome
      rw [wrote_snoc fun n hn => by cases hn]
      refine ⟨hW, [], ?_, fun _ => rfl⟩
      show k.lockFile.map _ = _
      rw [hbs, Option.map_some]
    | @write _ _ n _ =>
      obtain ⟨hW, bs, hbs, hT⟩ := h
      rw [truncated_snoc fun hn => by cases hn]
      have hwrote : ∀ m, Wrote (tr ++ [(i, .write n)]) i m ↔ m = n := by
        intro m
        unfold Wrote
        rw [List.mem_append, List.mem_singleton]
        constructor
        · rintro (hm | hm)
          · exact absurd hm (hW m)
          · cases hm
            rfl
        · rintro rfl
          exact .inr rfl
      intro m hm
      obtain rfl := (hwrote m).mp hm
      refine ⟨bs.drop m, ?_, fun ht => ?_⟩
      · show k.lockFile.map _ = _
        rw [hbs, Option.map_some]
      · rw [hT ht, List.drop_nil]
    | _ => rcases hl with ⟨n, hl⟩ | hl <;> cases hl
  · rw [not_or, not_exists] at hl
    rw [wrote_snoc fun n hn => hl.1 n (Prod.mk.inj hn).2,
      truncated_snoc fun hn => hl.2 (Prod.mk.inj hn).2]
    cases hs with
    | opened => exact ⟨h.1, h.2, rfl⟩
    | ftruncateFails =>
      obtain ⟨hW, hT, hsome⟩ := h
      obtain ⟨bs, hbs⟩ := Option.isSome_iff_exists.mp hsome
      exact ⟨hW, bs, hbs, fun ht => absurd ht hT⟩
    | openFails | busy | flockFails | close | sigactionFails | sigmaskFails | createFails
    | message | exit | leave | killed => exact fun _ hn => h.written hn
    | daemonize | granted | sigaction | sigmask | create | started | sigwait | sigwaitFails
    | handled | waitFailed | pending | discarded => exact h
    | ftruncate => exact absurd rfl hl.2
    | write => exact absurd rfl (hl.1 _)

/-- INTERNAL: another process has written or truncated no more than before. -/
theorem filed_snoc_of_ne (hne : e.1 ≠ i) (c : Pc) (file : Option (List UInt8)) :
    Filed (Wrote (tr ++ [e]) i) (Truncated (tr ++ [e]) i) file i c =
      Filed (Wrote tr i) (Truncated tr i) file i c := by
  rw [wrote_snoc, truncated_snoc]
  · intro he
    exact hne (congrArg Prod.fst he)
  · intro n he
    exact hne (congrArg Prod.fst he)

end Traces

section Runs

variable {s₀ s : Processes Kernel (Pc × Process Kind)} {tr : List (ℕ × Call)}

/-- The lock file and the part that the processes have in it that have the lock or have not
come to it. -/
structure LockFile (tr : List (ℕ × Call)) (s : Processes Kernel (Pc × Process Kind)) : Prop where
  granted : ∀ (i : ℕ) (q : Pc × Process Kind), s.procs[i]? = some q → q.1.Filling →
    (i, .flock .granted) ∈ tr
  wrote : ∀ i n, Wrote tr i n → (i, .flock .granted) ∈ tr
  filed : ∀ (i : ℕ) (q : Pc × Process Kind), s.procs[i]? = some q → Holds s i ∨ q.1.Fresh →
    Filed (Wrote tr i) (Truncated tr i) s.kern.lockFile i q.1

/-- What one step keeps, before the kernel settles. -/
theorem lockFile_step {k k₁ : Kernel} {ps new : List (Pc × Process Kind)} {i : ℕ} {c c' : Pc}
    {p p' : Process Kind} {l : Call} (h₀ : Starts s₀)
    (hr : ProcessRun testDaemon Settles s₀ tr ⟨k, ps⟩) (h : LockFile tr ⟨k, ps⟩)
    (hp : ps[i]? = some (c, p)) (hs : DaemonStep i k (c, p) l k₁ (c', p') new) :
    LockFile (tr ++ [(i, l)]) ⟨k₁, ps.set i (c', p') ++ new⟩ := by
  obtain ⟨hc, -⟩ := custody_run h₀ hr
  have hlast : (i, l) ∈ tr ++ [(i, l)] := by simp
  refine ⟨fun j q hq hfill => ?_, fun j n hn => ?_, fun j q hq hrel => ?_⟩
  · rcases Concurrency.getElem?_stepped hp hq with ⟨rfl, rfl⟩ | ⟨-, hq⟩ | ⟨-, hq⟩
    · rcases daemonStep_filling hs hfill with rfl | hold
      · exact hlast
      · exact List.mem_append_left _ (h.granted j _ hp hold)
    · exact List.mem_append_left _ (h.granted j q hq hfill)
    · obtain ⟨-, -, -, d, hd⟩ := daemonStep_forks hs q (List.mem_of_getElem? hq)
      rw [hd] at hfill
      exact hfill.elim
  · apply List.mem_append_left
    rcases List.mem_append.mp hn with hn | hn
    · exact h.wrote j n hn
    · obtain ⟨rfl, rfl⟩ := Prod.mk.inj (List.mem_singleton.mp hn)
      cases hs
      exact h.granted j _ hp trivial
  · rcases Concurrency.getElem?_stepped hp hq with ⟨rfl, rfl⟩ | ⟨hne, hq⟩ | ⟨hle, hq⟩
    · apply daemonStep_filed _ hs
      apply h.filed j _ hp
      rcases hrel with hj | hfresh
      · rcases holds_stepped hc hp hs hj with ⟨-, rfl⟩ | ⟨-, hold⟩
        · obtain ⟨fd, f, rfl, -⟩ := granted_sole hc hp hs
          exact .inr trivial
        · exact .inl hold
      · exact .inr (daemonStep_fresh hs hfresh)
    · rw [filed_snoc_of_ne hne.symm]
      have hold : Holds ⟨k, ps⟩ j ∨ q.1.Fresh := by
        apply hrel.imp_left
        intro hj
        rcases holds_stepped hc hp hs hj with ⟨hji, -⟩ | ⟨-, hold⟩
        · exact absurd hji hne
        · exact hold
      have hfiled := h.filed j q hq hold
      rcases daemonStep_lockFile hs with hsame | ⟨hfill, hsome⟩
      · exact hfiled.mono hsame
      · -- the file is changed by the process that has the lock
        rcases hold with hj | hfresh
        · have hi := holds_run h₀ hr i _ hp (daemonStep_alive hs) (h.granted i _ hp hfill)
          exact absurd (hc.sole j i hj hi) hne
        · exact hfiled.fresh hfresh hsome
    · obtain ⟨-, -, -, d, hd⟩ := daemonStep_forks hs q (List.mem_of_getElem? hq)
      have hlt := (List.getElem?_eq_some_iff.mp hp).1
      rw [filed_snoc_of_ne (by omega), hd]
      -- nothing has been written under the number of a new process
      exact ⟨fun _ hn => absurd (hr.index_lt _ hn) (Nat.not_lt_of_le hle),
        fun ht => absurd (hr.index_lt _ ht) (Nat.not_lt_of_le hle)⟩

/-- The lock file in every run. -/
theorem lockFile_run (h₀ : Starts s₀) (h : ProcessRun testDaemon Settles s₀ tr s) :
    LockFile tr s := by
  refine h.trace_invariant LockFile ?_ ?_
  · refine ⟨fun i q hq hfill => ?_, fun _ _ hn => (List.not_mem_nil hn).elim,
      fun i q hq _ => ?_⟩
    · rw [h₀.start i q hq] at hfill
      exact hfill.elim
    · rw [h₀.start i q hq]
      exact ⟨fun _ hn => List.not_mem_nil hn, fun ht => List.not_mem_nil ht⟩
  · rintro tr s ⟨i, l⟩ s' hr hfile hs
    obtain ⟨hp, hstep, hsettle⟩ := hs
    have hstepped := lockFile_step h₀ hr hfile hp hstep
    refine ⟨hstepped.granted, hstepped.wrote, fun j q hq hrel => ?_⟩
    have hsame := hstepped.filed j q hq (hrel.imp_left fun hj => hj.of_settles hsettle)
    cases hsettle with
    | stays => exact hsame
    | released => exact hsame

/-- **The lock file names the daemon.** While a process lives that has called `write`, whatever
has failed since and in whatever order others are started and turned away, the file begins with
what the process has written, and with nothing behind it if `ftruncate` has succeeded. If all
has been written, the file is read as the pid of the process. -/
theorem lock_file_names_holder (h₀ : Starts s₀) (h : ProcessRun testDaemon Settles s₀ tr s)
    {i : ℕ} {q : Pc × Process Kind} (hq : s.procs[i]? = some q) (hend : q.1.ended = false)
    {n : ℕ} (hn : (i, .write n) ∈ tr) :
    ∃ bs, s.kern.lockFile = some ((pidText i).take n ++ bs) ∧
      ((i, .ftruncate true) ∈ tr → bs = []) ∧
      (n = (pidText i).length →
        ofDecimal (CString.ofBytes ((pidText i).take n ++ bs)) = i) := by
  have hfile := lockFile_run h₀ h
  have hholds := holds_run h₀ h i q hq hend (hfile.wrote i n hn)
  have hfiled := hfile.filed i q hq (.inl hholds)
  obtain ⟨bs, hbs, hT⟩ := hfiled.written hn
  refine ⟨bs, hbs, hT, ?_⟩
  rintro rfl
  rw [List.take_length, ofDecimal_pidText]

/-- The lock file of a daemon whose pid is 2. -/
theorem lock_file_names_holder_two :
    ∃ (tr : List (ℕ × Call)) (s : Processes Kernel (Pc × Process Kind)),
      ProcessRun testDaemon Settles (launchedTimes 1) tr s ∧ (2, .write 2) ∈ tr ∧
        ∃ bs, s.kern.lockFile = some ((pidText 2).take 2 ++ bs) ∧
          ofDecimal (CString.ofBytes ((pidText 2).take 2 ++ bs)) = 2 := by
  obtain ⟨tr, q₀, q₁, p, h, -, -, -, -, -, hw⟩ := one_serves
  refine ⟨tr, _, h, hw, ?_⟩
  obtain ⟨bs, hbs, -, hpid⟩ := lock_file_names_holder (launchedTimes_starts 1) h rfl rfl hw
  exact ⟨bs, hbs, hpid (by decide)⟩

end Runs

end UbuntuProjects.TestDaemon
