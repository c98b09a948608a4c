import UbuntuProjects.Analysis.TsStackSystemLocks

/-!
# Stopping the waiting threads of a stack

`stop_waitings` raises the flag under the mutex, and nothing lowers it: a swap and a
construction move the elements only. Once the call has returned nobody is parked at the
stack without having been notified, nobody parks there again, and every waiting pop that
locks the mutex later gives up (`stop_waitings_final`), whatever elements have been pushed or
swapped in.
-/

set_option autoImplicit false

namespace UbuntuProjects.TsStackSystem

open Concurrency
open TsQueue (Notify Take)
open TsStack (Shared Op Outcome SwapCall SwapPc SwapStep swapMutexes setMut exchangeStacks)

variable {Obj Tid T : Type}

/-! ## One stack -/

section Members

variable [DecidableEq Tid] {t : Tid} {p p' : Loc T} {s s' : Shared Tid T}

/-- What a step inside a member function may do to the flag and to the threads parked. -/
structure FlagStep (p p' : Loc T) (s s' : Shared Tid T) : Prop where
  raised : s.mInterruptWaiting = true → s'.mInterruptWaiting = true
  raises : s'.mInterruptWaiting = true → s.mInterruptWaiting = true ∨ p = .setStop
  parks : (∃ k, p = .park k) ∨ ∀ u ∈ s'.mCb, u ∈ s.mCb
  decides : ∀ k, p' = .park k → s'.mInterruptWaiting = false

omit [DecidableEq Tid] in
/-- INTERNAL: a step that leaves the flag alone and parks nobody. -/
theorem flagStep_same (hi : s'.mInterruptWaiting = s.mInterruptWaiting)
    (hcb : ∀ u ∈ s'.mCb, u ∈ s.mCb) (hp : ∀ k, p' ≠ .park k) : FlagStep p p' s s' where
  raised h := hi.trans h
  raises h := .inl (hi.symm.trans h)
  parks := .inr hcb
  decides k hk := absurd hk (hp k)

theorem afterLockPop_ne_park (k k' : Take) : (afterLockPop k : Loc T) ≠ .park k' := by
  unfold afterLockPop popStart
  split
  · split
    · nofun
    · split <;> nofun
  · nofun

theorem popStart_ne_park (k k' : Take) : (popStart k : Loc T) ≠ .park k' := by
  unfold popStart
  split <;> nofun

theorem memberStep_flag (hs : MemberStep t p s p' s') : FlagStep p p' s s' := by
  cases hs with
  | push hs =>
    cases hs with
    | unlock =>
      refine flagStep_same rfl (fun _ => id) ?_
      rename_i n
      cases n <;> nofun
    | _ => exact flagStep_same rfl (fun _ => id) nofun
  | notify hs =>
    cases hs with
    | one => exact flagStep_same rfl (fun _ => List.mem_of_mem_erase) nofun
    | all | notifyStop => exact flagStep_same rfl nofun nofun
    | setStop => exact ⟨fun _ => rfl, fun _ => .inr rfl, .inr fun _ => id, nofun⟩
    | _ => exact flagStep_same rfl (fun _ => id) nofun
  | wait hs =>
    cases hs with
    | lock => exact flagStep_same rfl (fun _ => id) (afterLockPop_ne_park _)
    | testEmpty =>
      refine flagStep_same rfl (fun _ => id) ?_
      unfold afterTestEmpty
      split
      · nofun
      · exact popStart_ne_park _
    | testInterrupt =>
      refine flagStep_same rfl (fun _ => id) ?_
      unfold afterTestInterrupt
      split <;> nofun
    | predicate =>
      refine ⟨id, .inl, .inr fun _ => id, fun k hk => ?_⟩
      unfold afterPredicate at hk
      split at hk
      · cases hk
      · rename_i hpred
        simpa using (not_or.mp hpred).2
    | park => exact ⟨id, .inl, .inl ⟨_, rfl⟩, nofun⟩
    | retest =>
      refine flagStep_same rfl (fun _ => id) ?_
      unfold afterRetest
      split
      · nofun
      · exact popStart_ne_park _
    | spurious | timeout => exact flagStep_same rfl (fun _ => List.mem_of_mem_erase) nofun
    | _ => exact flagStep_same rfl (fun _ => id) nofun
  | remove hs =>
    cases hs with
    | loop =>
      refine flagStep_same rfl (fun _ => id) ?_
      unfold afterPopLoop
      split <;> nofun
    | drop =>
      refine flagStep_same rfl (fun _ => id) ?_
      unfold afterPopDrop
      split <;> nofun
    | _ => exact flagStep_same rfl (fun _ => id) nofun
  | «section» hs => cases hs <;> exact flagStep_same rfl (fun _ => id) nofun

end Members

/-! ## The system -/

/-- The stack `o` is alive, its flag is up, and nobody is parked there without having been
notified. -/
structure Stopped (o : Obj) (s : System Obj Tid T) : Prop where
  alive : s.life o = .alive
  flag : (s.stack o).mInterruptWaiting = true
  parked : (s.stack o).mCb = []

/-- Nobody is about to park at a stack whose flag is up. -/
def Watched (c : Config Tid (Pc Obj T) (System Obj Tid T)) : Prop :=
  ∀ o, (c.sh.stack o).mInterruptWaiting = true → ∀ t k, c.pc t ≠ .on o (.park k)

section Steps

variable [DecidableEq Obj] [DecidableEq Tid] {t : Tid} {p p' : Pc Obj T}
  {s s' : System Obj Tid T} {l : Lab Obj T} {o : Obj}

omit [DecidableEq Tid] in
/-- INTERNAL: swapping leaves the flags and the parked threads alone. -/
theorem swapStep_flag {q q' : SwapPc Obj} {f : Obj → Shared Tid T}
    (hs : SwapStep t q s.stack none q' f) (o : Obj) :
    (f o).mInterruptWaiting = (s.stack o).mInterruptWaiting ∧ (f o).mCb = (s.stack o).mCb := by
  have hset : ∀ (r : Obj) (m : Option Tid),
      (setMut s.stack r m o).mInterruptWaiting = (s.stack o).mInterruptWaiting ∧
        (setMut s.stack r m o).mCb = (s.stack o).mCb := by
    intro r m
    by_cases hor : o = r
    · subst hor
      rw [setMut_self]
      exact ⟨rfl, rfl⟩
    · rw [setMut_of_ne _ hor]
      exact ⟨rfl, rfl⟩
  cases hs with
  | acquire | backOff | release => exact hset _ _
  | enter | released | ret => exact ⟨rfl, rfl⟩
  | exchange =>
    rename_i this other
    obtain ⟨hthis, hother, helse⟩ := TsStack.exchangeStacks_spec s.stack this other
    by_cases ho : o = this
    · subst ho
      rw [hthis]
      exact ⟨rfl, rfl⟩
    · by_cases ho' : o = other
      · subst ho'
        rw [hother]
        exact ⟨rfl, rfl⟩
      · rw [helse o ho ho']
        exact ⟨rfl, rfl⟩

omit [DecidableEq Tid] in
/-- INTERNAL: constructing leaves the flags and the parked threads of other stacks alone. -/
theorem constructStep_flag (hs : ConstructStep t p s p' s') (ho : ¬p.constructs o) :
    (s'.stack o).mInterruptWaiting = (s.stack o).mInterruptWaiting ∧
      (s'.stack o).mCb = (s.stack o).mCb := by
  have hset : ∀ (r : Obj) (S : Shared Tid T), S.mInterruptWaiting = (s.stack r).mInterruptWaiting →
      S.mCb = (s.stack r).mCb →
      ((s.setStack r S).stack o).mInterruptWaiting = (s.stack o).mInterruptWaiting ∧
        ((s.setStack r S).stack o).mCb = (s.stack o).mCb := by
    intro r S hi hcb
    by_cases hor : o = r
    · subst hor
      rw [setStack_self]
      exact ⟨hi, hcb⟩
    · rw [setStack_of_ne hor]
      exact ⟨rfl, rfl⟩
  cases hs with
  | lock | unlock => exact hset _ _ rfl rfl
  | move =>
    rw [setStack_of_ne ho]
    exact hset _ _ rfl rfl

/-- What a step of the system does to one stack: a step of a member function, a step of its
construction, or nothing that matters to the threads that wait there. -/
theorem systemStep_flag (hs : SystemStep t p s l p' s') (o : Obj) :
    (∃ q q', p = .on o q ∧ p' = .on o q' ∧ l = none ∧
      MemberStep t q (s.stack o) q' (s'.stack o)) ∨
    (∀ k, p' ≠ .on o (.park k)) ∧ (p.constructs o ∨
      (s'.stack o).mInterruptWaiting = (s.stack o).mInterruptWaiting ∧
        (s'.stack o).mCb = (s.stack o).mCb) := by
  cases hs with
  | @callOn _ r op =>
    refine .inr ⟨fun k hk => ?_, .inr ⟨rfl, rfl⟩⟩
    injection hk with _ hk
    cases op <;> cases hk
  | callSwap => exact .inr ⟨nofun, .inr ⟨rfl, rfl⟩⟩
  | callMove => exact .inr ⟨nofun, .inr ⟨rfl, rfl⟩⟩
  | @member _ r q q' S hs =>
    by_cases hro : o = r
    · subst hro
      refine .inl ⟨q, q', rfl, rfl, rfl, ?_⟩
      rw [setStack_self]
      exact hs
    · refine .inr ⟨fun k hk => ?_, .inr ?_⟩
      · injection hk with hr _
        exact hro hr.symm
      · rw [setStack_of_ne hro]
        exact ⟨rfl, rfl⟩
  | swap _ hs => exact .inr ⟨nofun, .inr (swapStep_flag hs o)⟩
  | construct hs =>
    refine .inr ⟨by cases hs <;> nofun, ?_⟩
    by_cases ho : p.constructs o
    · exact .inl ho
    · exact .inr (constructStep_flag hs ho)
  | ret => exact .inr ⟨nofun, .inr ⟨rfl, rfl⟩⟩
  | retMove => exact .inr ⟨nofun, .inr ⟨rfl, rfl⟩⟩

end Steps

section Runs

variable [DecidableEq Obj] [DecidableEq Tid] {c c' : Config Tid (Pc Obj T) (System Obj Tid T)}
  {t u : Tid} {o : Obj}

theorem Watched.step {e : Tid × Lab Obj T} (h : Watched c) (hI : SystemInv c)
    (hs : Step SystemStep c e c') : Watched c' := by
  obtain ⟨hs⟩ := hs
  rename_i t l p' s'
  intro o hflag u k hu
  replace hu : Function.update c.pc t p' u = .on o (.park k) := hu
  by_cases hut : u = t
  · subst hut
    rw [Function.update_self] at hu
    rcases systemStep_flag hs o with ⟨q, q', -, hq', -, hm⟩ | ⟨hne, -⟩
    · obtain rfl : q' = .park k := by
        rw [hq'] at hu
        injection hu
      have hfalse := (memberStep_flag hm).decides k rfl
      rw [hfalse] at hflag
      cases hflag
    · exact hne k hu
  · rw [Function.update_of_ne hut] at hu
    have hold : (c.pc u).holds o := by
      rw [hu]
      exact ⟨rfl, trivial⟩
    rcases systemStep_flag hs o with ⟨q, q', hq, -, -, hm⟩ | ⟨-, hcon | ⟨hsame, -⟩⟩
    · rcases (memberStep_flag hm).raises hflag with hbefore | rfl
      · exact h o hbefore u k hu
      · refine hut (hI.exclusive hold ?_)
        rw [hq]
        exact ⟨rfl, trivial⟩
    · have halive := hI.alive u o ((hI u).holds o hold)
      rw [((hI t).constructs o).mpr hcon] at halive
      cases halive
    · exact h o (hsame.symm.trans hflag) u k hu

theorem Stopped.step {e : Tid × Lab Obj T} (h : Stopped o c.sh) (hW : Watched c)
    (hI : SystemInv c) (hs : Step SystemStep c e c') : Stopped o c'.sh := by
  obtain ⟨hs⟩ := hs
  rename_i t l p' s'
  obtain ⟨-, hframe⟩ := systemStep_owns (hI t) hI.alive hs
  rcases systemStep_flag hs o with ⟨q, q', hq, -, -, hm⟩ | ⟨-, hcon | ⟨hi, hcb⟩⟩
  · have hF := memberStep_flag hm
    refine ⟨hframe.alive o h.alive, hF.raised h.flag, ?_⟩
    rcases hF.parks with ⟨k, rfl⟩ | hsub
    · exact absurd hq (hW o h.flag t k)
    · rw [h.parked] at hsub
      exact List.eq_nil_iff_forall_not_mem.mpr fun u hu => List.not_mem_nil (hsub u hu)
  · have halive := h.alive
    rw [((hI t).constructs o).mpr hcon] at halive
    cases halive
  · exact ⟨hframe.alive o h.alive, hi.trans h.flag, hcb.trans h.parked⟩

/-- What holds in every configuration of every run. -/
structure StopInv (c : Config Tid (Pc Obj T) (System Obj Tid T)) : Prop where
  inv : SystemInv c
  watched : Watched c

theorem StopInv.step {e : Tid × Lab Obj T} (h : StopInv c) (hs : Step SystemStep c e c') :
    StopInv c' :=
  ⟨h.inv.step hs, h.watched.step h.inv hs⟩

theorem stopInv_run {init : Obj → Option (List T)} {tr : List (Tid × Lab Obj T)}
    (h : Run SystemStep anyStep (start Tid init) tr c) : StopInv c := by
  apply h.invariant StopInv ⟨systemInv_start init, nofun⟩
  exact fun _ _ _ hI _ hs => hI.step hs

/-! ## The call of `stop_waitings` -/

/-- Thread `t` stays inside its call. -/
def WithinCall (t : Tid) (_ : Config Tid (Pc Obj T) (System Obj Tid T)) (e : Tid × Lab Obj T) :
    Prop :=
  e.1 = t → e.2 = none

/-- Where a thread is that stops the waiting threads of the stack `o`. -/
def Stopping (o : Obj) (s : System Obj Tid T) : Pc Obj T → Prop
  | .on q .lockStop => q = o
  | .on q .setStop => q = o
  | .on q .notifyStop => q = o ∧ (s.stack o).mInterruptWaiting = true
  | .on q (.unlock _) => q = o ∧ Stopped o s
  | .on q (.returning _) => q = o ∧ Stopped o s
  | _ => False

/-- INTERNAL: the thread's own step. -/
theorem Stopping.own {p p' : Pc Obj T} {s s' : System Obj Tid T} (h : Stopping o s p)
    (hO : Owns s t p) (hstep : Stopped o s → Stopped o s') (hs : SystemStep t p s none p' s') :
    Stopping o s' p' := by
  cases hs with
  | @member _ q p p' S hs =>
    cases p with
    | lockStop =>
      obtain rfl : q = o := h
      cases hs with
      | notify hs =>
        cases hs
        rfl
      | push hs | wait hs | remove hs | «section» hs => cases hs
    | setStop =>
      obtain rfl : q = o := h
      cases hs with
      | notify hs =>
        cases hs
        refine ⟨rfl, ?_⟩
        rw [setStack_self]
      | push hs | wait hs | remove hs | «section» hs => cases hs
    | notifyStop =>
      obtain ⟨rfl, hflag⟩ := h
      have halive := hO.uses q rfl
      cases hs with
      | notify hs =>
        cases hs
        refine ⟨rfl, halive, ?_, ?_⟩
        · rw [setStack_self]
          exact hflag
        · rw [setStack_self]
      | push hs | wait hs | remove hs | «section» hs => cases hs
    | unlock r =>
      obtain ⟨rfl, hst⟩ := h
      cases hs with
      | «section» hs =>
        cases hs
        exact ⟨rfl, hstep hst⟩
      | push hs | wait hs | remove hs | notify hs => cases hs
    | returning r =>
      cases hs with
      | push hs | wait hs | remove hs | notify hs | «section» hs => cases hs
    | _ => exact h.elim
  | swap => exact h.elim
  | construct hs => cases hs <;> exact h.elim

omit [DecidableEq Obj] [DecidableEq Tid] in
/-- INTERNAL: a step of another thread. -/
theorem Stopping.other {p : Pc Obj T} {s s' : System Obj Tid T} (h : Stopping o s p)
    (hflag : (s.stack o).mInterruptWaiting = true → p.holds o →
      (s'.stack o).mInterruptWaiting = true)
    (hstep : Stopped o s → Stopped o s') : Stopping o s' p := by
  cases p with
  | on q p =>
    cases p with
    | lockStop | setStop => exact h
    | notifyStop => exact ⟨h.1, hflag h.2 ⟨h.1.symm, trivial⟩⟩
    | unlock | returning => exact ⟨h.1, hstep h.2⟩
    | _ => exact h.elim
  | _ => exact h.elim

/-- INTERNAL: the flag of a stack that somebody uses stays up. -/
theorem StopInv.flag_stays {e : Tid × Lab Obj T} (h : StopInv c) (hs : Step SystemStep c e c')
    (hflag : (c.sh.stack o).mInterruptWaiting = true) (hu : (c.pc u).uses o) :
    (c'.sh.stack o).mInterruptWaiting = true := by
  obtain ⟨hs⟩ := hs
  rename_i t l p' s'
  rcases systemStep_flag hs o with ⟨q, q', -, -, -, hm⟩ | ⟨-, hcon | ⟨hi, -⟩⟩
  · exact (memberStep_flag hm).raised hflag
  · have halive := (h.inv u).uses o hu
    rw [((h.inv t).constructs o).mpr hcon] at halive
    cases halive
  · exact hi.trans hflag

/-- INTERNAL: when a call of `stop_waitings` is about to return the stack is stopped. -/
theorem stopping_run {tr : List (Tid × Lab Obj T)} (hI : StopInv c)
    (hcall : c.pc u = .on o (entry .stopWaitings)) (h : Run SystemStep (WithinCall u) c tr c') :
    StopInv c' ∧ Stopping o c'.sh (c'.pc u) := by
  refine h.invariant (fun c => StopInv c ∧ Stopping o c.sh (c.pc u)) ⟨hI, ?_⟩ ?_
  · rw [hcall]
    rfl
  · rintro c₁ ⟨t, l⟩ c₂ ⟨hI, hst⟩ hG hs
    have hstep : Stopped o c₁.sh → Stopped o c₂.sh := fun h => h.step hI.watched hI.inv hs
    refine ⟨hI.step hs, ?_⟩
    by_cases hu : u = t
    · subst hu
      obtain rfl : l = none := hG rfl
      obtain ⟨hs⟩ := hs
      rename_i p' s'
      show Stopping o s' (Function.update c₁.pc u p' u)
      rw [Function.update_self]
      exact hst.own (hI.inv u) hstep hs
    · have hkeep := hst.other (fun hflag hp => hI.flag_stays hs hflag
        (Pc.uses_of_mayHold ((hI.inv u).mayHold o ((hI.inv u).holds o hp)))) hstep
      obtain ⟨hs⟩ := hs
      rename_i p' s'
      show Stopping o s' (Function.update c₁.pc t p' u)
      rw [Function.update_of_ne hu]
      exact hkeep

/-! ## The pops that come later -/

/-- Where the waiting pop `k` of the stack `o` is that can only give up. -/
def GivesUp (o : Obj) (k : Take) : Pc Obj T → Prop
  | .on q (.lockPop k') => q = o ∧ k' = k
  | .on q (.testInterrupt k') => q = o ∧ k' = k
  | .on q (.predicate k' _) => q = o ∧ k' = k
  | .on q (.retestInterrupt k') => q = o ∧ k' = k
  | .on q (.parked k') => q = o ∧ k' = k
  | .on q (.relock k' _) => q = o ∧ k' = k
  | .on q (.unlock r) => q = o ∧ r = .of (k.result .interrupted [])
  | .on q (.returning r) => q = o ∧ r = .of (k.result .interrupted [])
  | _ => False

/-- INTERNAL: a pop that can only give up leaves the elements alone and goes on giving up. -/
theorem GivesUp.own {p p' : Pc Obj T} {s s' : System Obj Tid T} {k : Take} (h : GivesUp o k p)
    (hk : k.wait ≠ .never) (hflag : (s.stack o).mInterruptWaiting = true)
    (hs : SystemStep t p s none p' s') :
    GivesUp o k p' ∧ ∀ r, (s'.stack r).mStack = (s.stack r).mStack := by
  cases hs with
  | @member _ q p p' S hs =>
    have hsame : S.mStack = (s.stack q).mStack → ∀ r,
        ((s.setStack q S).stack r).mStack = (s.stack r).mStack := by
      intro hS r
      by_cases hr : r = q
      · subst hr
        rw [setStack_self]
        exact hS
      · rw [setStack_of_ne hr]
    cases p with
    | lockPop k' =>
      obtain ⟨rfl, rfl⟩ := h
      cases hs with
      | wait hs =>
        cases hs
        have hwait : (afterLockPop k' : Loc T) = .testInterrupt k' := by
          unfold afterLockPop
          split
          · contradiction
          · rfl
        rw [hwait]
        exact ⟨⟨rfl, rfl⟩, hsame rfl⟩
      | push hs | notify hs | remove hs | «section» hs => cases hs
    | testInterrupt k' =>
      obtain ⟨rfl, rfl⟩ := h
      cases hs with
      | wait hs =>
        cases hs
        simp only [afterTestInterrupt, hflag, if_true]
        exact ⟨⟨rfl, rfl⟩, hsame rfl⟩
      | push hs | notify hs | remove hs | «section» hs => cases hs
    | predicate k' last =>
      obtain ⟨rfl, rfl⟩ := h
      cases hs with
      | wait hs =>
        cases hs
        simp only [afterPredicate, hflag, or_true, if_true]
        exact ⟨⟨rfl, rfl⟩, hsame rfl⟩
      | push hs | notify hs | remove hs | «section» hs => cases hs
    | retestInterrupt k' =>
      obtain ⟨rfl, rfl⟩ := h
      cases hs with
      | wait hs =>
        cases hs
        simp only [afterRetest, hflag, if_true]
        exact ⟨⟨rfl, rfl⟩, hsame rfl⟩
      | push hs | notify hs | remove hs | «section» hs => cases hs
    | parked k' =>
      obtain ⟨rfl, rfl⟩ := h
      cases hs with
      | wait hs => cases hs <;> exact ⟨⟨rfl, rfl⟩, hsame rfl⟩
      | push hs | notify hs | remove hs | «section» hs => cases hs
    | relock k' last =>
      obtain ⟨rfl, rfl⟩ := h
      cases hs with
      | wait hs =>
        cases hs
        exact ⟨⟨rfl, rfl⟩, hsame rfl⟩
      | push hs | notify hs | remove hs | «section» hs => cases hs
    | unlock r =>
      obtain ⟨rfl, rfl⟩ := h
      cases hs with
      | «section» hs =>
        cases hs
        exact ⟨⟨rfl, rfl⟩, hsame rfl⟩
      | push hs | notify hs | remove hs | wait hs => cases hs
    | returning r =>
      cases hs with
      | push hs | notify hs | remove hs | wait hs | «section» hs => cases hs
    | _ => exact h.elim
  | swap => exact h.elim
  | construct hs => cases hs <;> exact h.elim

/-- The steps of the system in which thread `t` removes and adds no element. -/
def Harmless (t : Tid) : Program Tid (Pc Obj T) (System Obj Tid T) (Lab Obj T) :=
  fun u p s l p' s' => SystemStep u p s l p' s' ∧
    (u = t → ∀ o, (s'.stack o).mStack = (s.stack o).mStack)

theorem givesUp_run {tr : List (Tid × Lab Obj T)} {k : Take} (hI : StopInv c)
    (hst : Stopped o c.sh) (hk : k.wait ≠ .never) (hp : GivesUp o k (c.pc t))
    (h : Run SystemStep (WithinCall t) c tr c') :
    Run (Harmless t) (WithinCall t) c tr c' ∧ GivesUp o k (c'.pc t) := by
  have hall : Run (Harmless t) (WithinCall t) c tr c' ∧ StopInv c' ∧ Stopped o c'.sh ∧
      GivesUp o k (c'.pc t) := by
    apply h.trace_invariant (fun tr c' => Run (Harmless t) (WithinCall t) c tr c' ∧ StopInv c' ∧
      Stopped o c'.sh ∧ GivesUp o k (c'.pc t)) ⟨.nil, hI, hst, hp⟩
    rintro tr c₁ ⟨u, l⟩ c₂ - ⟨hr, hI, hst, hp⟩ hG hs
    have hI' := hI.step hs
    have hst' := hst.step hI.watched hI.inv hs
    obtain ⟨hs⟩ := hs
    rename_i p' s'
    by_cases hu : u = t
    · subst hu
      obtain rfl : l = none := hG rfl
      obtain ⟨hp', hsame⟩ := hp.own hk hst.flag hs
      refine ⟨hr.step hG (.mk ⟨hs, fun _ => hsame⟩), hI', hst', ?_⟩
      show GivesUp o k (Function.update c₁.pc u p' u)
      rw [Function.update_self]
      exact hp'
    · refine ⟨hr.step hG (.mk ⟨hs, fun h => absurd h hu⟩), hI', hst', ?_⟩
      show GivesUp o k (Function.update c₁.pc u p' t)
      rw [Function.update_of_ne (Ne.symm hu)]
      exact hp
  exact ⟨hall.1, hall.2.2.2⟩

/-- **`stop_waitings` is final.** Once a call has returned, nobody is parked at the stack
without having been notified, in every later configuration, and every waiting pop that has
yet to lock the mutex gives up and takes no element. -/
theorem stop_waitings_is_final {init : Obj → Option (List T)}
    {tr tr₁ tr₂ : List (Tid × Lab Obj T)} {c c₁ c₂ : Config Tid (Pc Obj T) (System Obj Tid T)}
    {r : Outcome T} (h : Run SystemStep anyStep (start Tid init) tr c)
    (hcall : c.pc u = .on o (entry .stopWaitings))
    (hstop : Run SystemStep (WithinCall u) c tr₁ c₁) (hret : c₁.pc u = .on o (.returning r))
    (hlater : Run SystemStep anyStep c₁ tr₂ c₂) :
    Stopped o c₂.sh ∧
    ∀ (t : Tid) (k : Take), k.wait ≠ .never →
      (c₂.pc t = .on o (.lockPop k) ∨ c₂.pc t = .on o (.parked k) ∨
        ∃ last, c₂.pc t = .on o (.relock k last)) →
      ∀ tr₃ c₃, Run SystemStep (WithinCall t) c₂ tr₃ c₃ →
        Run (Harmless t) (WithinCall t) c₂ tr₃ c₃ ∧
        ∀ r, c₃.pc t = .on o (.returning r) → r = .of (k.result .interrupted []) := by
  obtain ⟨hI₁, hst₁⟩ := stopping_run (stopInv_run h) hcall hstop
  rw [hret] at hst₁
  obtain ⟨hI₂, hst₂⟩ : StopInv c₂ ∧ Stopped o c₂.sh :=
    hlater.invariant (fun c => StopInv c ∧ Stopped o c.sh) ⟨hI₁, hst₁.2⟩
      fun _ _ _ hI _ hs => ⟨hI.1.step hs, hI.2.step hI.1.watched hI.1.inv hs⟩
  refine ⟨hst₂, fun t k hk hpc tr₃ c₃ hrun => ?_⟩
  have hgives : GivesUp o k (c₂.pc t) := by
    rcases hpc with hpc | hpc | ⟨last, hpc⟩ <;> rw [hpc] <;> exact ⟨rfl, rfl⟩
  obtain ⟨hharm, hend⟩ := givesUp_run hI₂ hst₂ hk hgives hrun
  refine ⟨hharm, fun r hr => ?_⟩
  rw [hr] at hend
  exact hend.2

/-- A stopped stack that is swapped with one that has an element: a later `wait_and_pop` takes
nothing. -/
theorem stop_waitings_is_final_swapped :
    ∃ (c₂ c₃ : Config Bool (Pc Bool ℕ) (System Bool Bool ℕ)) (tr₃ : List (Bool × Lab Bool ℕ)),
      (c₂.sh.stack true).mStack = [7] ∧ c₂.pc false = .on true (.lockPop ⟨.forever, .one⟩) ∧
        Stopped true c₂.sh ∧ Run (Harmless false) (WithinCall false) c₂ tr₃ c₃ ∧
        ∃ r, c₃.pc false = .on true (.returning r) ∧ r = .of (.status .interrupted none) := by
  have quiet : ∀ {c : Config Bool (Pc Bool ℕ) (System Bool Bool ℕ)} {t u : Bool},
      WithinCall t c (u, none) := fun _ => rfl
  have h₁ := (Run.nil : Run SystemStep anyStep
    (start Bool fun o : Bool => some (if o then [] else [7])) [] _).snoc true trivial
    (.callOn true .stopWaitings rfl)
  have k₀ : Run SystemStep (WithinCall true) _ _ _ := h₁.onward
  have k₁ := k₀.snoc true quiet (.member (.notify (.lockStop rfl)))
  have k₂ := k₁.snoc true quiet (.member (.notify .setStop))
  have k₃ := k₂.snoc true quiet (.member (.notify .notifyStop))
  have k₄ := k₃.snoc true quiet (.member (.section .unlock))
  have j₀ : Run SystemStep anyStep _ _ _ := k₄.onward
  have j₁ := j₀.snoc true trivial (.ret rfl)
  have j₂ := j₁.snoc true trivial (.callSwap (.member true false) (by decide))
  have j₃ := j₂.snoc true trivial (.swap nofun (.acquire (q := true) (by decide) rfl))
  have j₄ := j₃.snoc true trivial (.swap nofun (.acquire (q := false) (by decide) rfl))
  have j₅ := j₄.snoc true trivial (.swap nofun (.enter (by decide) (by
    intro q _
    cases q <;> rfl)))
  have j₆ := j₅.snoc true trivial (.swap nofun .exchange)
  have j₇ := j₆.snoc true trivial (.swap nofun (.release (q := true) (by decide) rfl))
  have j₈ := j₇.snoc true trivial (.swap nofun (.release (q := false) (by decide) rfl))
  have j₉ := j₈.snoc false trivial (.callOn true .waitAndPop rfl)
  have i₀ : Run SystemStep (WithinCall false) _ _ _ := j₉.onward
  have i₁ := i₀.snoc false quiet (.member (.wait (.lock rfl)))
  have i₂ := i₁.snoc false quiet (.member (.wait .testInterrupt))
  have i₃ := i₂.snoc false quiet (.member (.section .unlock))
  obtain ⟨hst, hend⟩ := stop_waitings_is_final h₁ rfl k₄ rfl j₉
  obtain ⟨hharm, hres⟩ := hend false ⟨.forever, .one⟩ nofun (.inl rfl) _ _ i₃
  exact ⟨_, _, _, rfl, rfl, hst, hharm, _, rfl, hres _ rfl⟩

end Runs

end UbuntuProjects.TsStackSystem
