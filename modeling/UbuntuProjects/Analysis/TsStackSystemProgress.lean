import UbuntuProjects.Analysis.TsStackSystemLinearizable
import UbuntuProjects.Concurrency.Progress

/-!
# Threads that use several stacks do not deadlock

Whatever the threads have called, and wherever they are, the calls can go on until every one
has returned or is a waiting pop parked in `m_cb` that nobody has notified
(`run_comes_to_rest`); nobody needs to wake up spuriously or to time out for that. First the
threads that own mutexes give them back, one after another; then the other calls are finished
up to their waiting; at last the pops that have been notified in between.
-/

set_option autoImplicit false

namespace UbuntuProjects.TsStackSystem

open Concurrency
open TsQueue (Notify Take)
open TsStack (Shared Op Outcome SwapCall SwapPc SwapStep swapMutexes setMut exchangeStacks)

variable {Obj Tid T : Type}

/-! ## Member functions -/

/-- The member functions of one stack as a program. -/
def members [DecidableEq Tid] : Program Tid (Loc T) (Shared Tid T) Unit :=
  fun t p s _ p' s' => MemberStep t p s p' s'

/-- A thread does not wake up before it is notified. -/
def Sleeps (t : Tid) (p : Loc T) (s : Shared Tid T) : Prop :=
  ∀ k, p = .parked k → t ∉ s.mCb

/-- The elements that a removal is going to move out are there. -/
def Ready : Loc T → Shared Tid T → Prop
  | .retestInterrupt _, s => s.mInterruptWaiting = false → s.mStack ≠ []
  | .popTop _ _ _, s => s.mStack ≠ []
  | _, _ => True

section Members

variable [DecidableEq Tid] {t : Tid} {p p' p₁ : Loc T} {s s' s₁ : Shared Tid T} {k : Take}
  {count : ℤ} {out : List T}

/-- INTERNAL: thread `t` alone comes to the end of its section, and nobody else wakes up. -/
def Leaves (t : Tid) (p : Loc T) (s : Shared Tid T) : Prop :=
  ∃ r s', Solo members (fun p s _ => Sleeps t p s) t p s (.unlock r) s' ∧ s'.mCb = s.mCb

theorem Leaves.step (h : Leaves t p₁ s₁) (hs : MemberStep t p s p₁ s₁) (hp : ∀ k, p ≠ .parked k)
    (hcb : s₁.mCb = s.mCb) : Leaves t p s := by
  obtain ⟨r, s', hsolo, hcb'⟩ := h
  exact ⟨r, s', .step (l := ()) hs (fun k hk => absurd hk (hp k)) hsolo, hcb'.trans hcb⟩

theorem leaves_unlock (r : Outcome T) : Leaves t (.unlock r) s :=
  ⟨r, s, .refl _ _, rfl⟩

/-- INTERNAL: one turn of a removal. -/
theorem leaves_popTop {v : T} {st : List T} (hst : s.mStack = v :: st)
    (hloop : ∀ out, Leaves t (.popLoop k (count - 1) out) { s with mStack := st }) :
    Leaves t (.popTop k count out) s := by
  apply Leaves.step _ (.remove (.top hst)) nofun rfl
  apply Leaves.step _ (.remove .drop) nofun rfl
  rw [hst]
  unfold afterPopDrop
  split
  · exact leaves_unlock _
  · exact hloop _

theorem leaves_popLoop : Leaves t (.popLoop k count out) s := by
  generalize hst : s.mStack = st
  induction st generalizing s count out with
  | nil =>
    apply Leaves.step _ (.remove .loop) nofun rfl
    have hstop : afterPopLoop k count out s.mStack = .unlock (.of (k.result .ready out)) := by
      simp [afterPopLoop, hst]
    rw [hstop]
    exact leaves_unlock _
  | cons v st ih =>
    apply Leaves.step _ (.remove .loop) nofun rfl
    unfold afterPopLoop
    split
    · exact leaves_unlock _
    · exact leaves_popTop hst fun out => ih rfl

theorem leaves_popStart (hst : s.mStack ≠ []) : Leaves t (popStart k) s := by
  unfold popStart
  split
  · obtain ⟨v, st, hv⟩ := List.exists_cons_of_ne_nil hst
    exact leaves_popTop hv fun _ => leaves_popLoop
  · exact leaves_popLoop

theorem leaves_clearLoop (sz : ℕ) : Leaves t (.clearLoop sz) s := by
  induction sz generalizing s with
  | zero =>
    apply Leaves.step _ (.section .cleared) nofun rfl
    exact leaves_unlock _
  | succ sz ih =>
    apply Leaves.step _ (.section .clearPop) nofun rfl
    exact ih

theorem leaves_retest (h : s.mInterruptWaiting = false → s.mStack ≠ []) :
    Leaves t (.retestInterrupt k) s := by
  apply Leaves.step _ (.wait .retest) nofun rfl
  unfold afterRetest
  split
  · exact leaves_unlock _
  · rename_i hflag
    exact leaves_popStart (h (by simpa using hflag))

theorem leaves_testEmpty : Leaves t (.testEmpty k) s := by
  apply Leaves.step _ (.wait .testEmpty) nofun rfl
  unfold afterTestEmpty
  split
  · exact leaves_unlock _
  · rename_i hne
    exact leaves_popStart (by simpa using hne)

/-- INTERNAL: thread `t` alone comes to its return or parks, and nobody else wakes up. -/
def Rests (t : Tid) (p : Loc T) (s : Shared Tid T) : Prop :=
  ∃ p' s', Solo members (fun p s _ => Sleeps t p s) t p s p' s' ∧
    (∀ u, u ≠ t → u ∈ s.mCb → u ∈ s'.mCb) ∧
    ((∃ r, p' = .returning r) ∨ ∃ k, p' = .parked k ∧ t ∈ s'.mCb)

theorem Leaves.rests (h : Leaves t p s) : Rests t p s := by
  obtain ⟨r, s', hsolo, hcb⟩ := h
  refine ⟨_, _, hsolo.snoc (l := ()) (.section .unlock) nofun, fun u _ hu => ?_, .inl ⟨r, rfl⟩⟩
  show u ∈ s'.mCb
  rw [hcb]
  exact hu

theorem Rests.step (h : Rests t p₁ s₁) (hs : MemberStep t p s p₁ s₁) (hp : Sleeps t p s)
    (hcb : ∀ u, u ≠ t → u ∈ s.mCb → u ∈ s₁.mCb) : Rests t p s := by
  obtain ⟨p', s', hsolo, hcb', hend⟩ := h
  exact ⟨p', s', .step (l := ()) hs hp hsolo, fun u hu hm => hcb' u hu (hcb u hu hm), hend⟩

theorem rests_predicate {last : Bool} : Rests t (.predicate k last) s := by
  apply Rests.step _ (.wait .predicate) nofun fun _ _ => id
  unfold afterPredicate
  split
  · rename_i hpred
    apply (leaves_retest _).rests
    intro hflag
    simpa [hflag] using hpred
  · split
    · exact (leaves_unlock _).rests
    · -- parking is the last step
      exact ⟨_, _, .step (l := ()) (.wait .park) nofun (.refl _ _),
        fun u _ hu => List.mem_cons_of_mem _ hu, .inr ⟨k, rfl, List.mem_cons_self⟩⟩

theorem rests_testInterrupt : Rests t (.testInterrupt k) s := by
  apply Rests.step _ (.wait .testInterrupt) nofun fun _ _ => id
  unfold afterTestInterrupt
  split
  · exact (leaves_unlock _).rests
  · exact rests_predicate

theorem rests_relock {last : Bool} (hm : s.mMut = none) : Rests t (.relock k last) s := by
  apply Rests.step _ (.wait (.relock hm)) nofun fun _ _ => id
  exact rests_predicate

/-- A pop that has been notified goes on until it returns or parks again. -/
theorem rests_notified (hm : s.mMut = none) (ht : t ∉ s.mCb) : Rests t (.parked k) s := by
  apply Rests.step _ (.wait (.notified ht)) (fun _ _ => ht) fun _ _ => id
  exact rests_relock hm

theorem rests_lockPop (hm : s.mMut = none) : Rests t (.lockPop k) s := by
  apply Rests.step _ (.wait (.lock hm)) nofun fun _ _ => id
  unfold afterLockPop
  split
  · split
    · exact leaves_testEmpty.rests
    · rename_i hk
      unfold popStart
      rw [hk]
      exact leaves_popLoop.rests
  · exact rests_testInterrupt

/-- INTERNAL: thread `t` alone comes to its return or parks. -/
def Finishes (t : Tid) (p : Loc T) (s : Shared Tid T) : Prop :=
  ∃ p' s', Solo members (fun p s _ => Sleeps t p s) t p s p' s' ∧
    ((∃ r, p' = .returning r) ∨ ∃ k, p' = .parked k ∧ t ∈ s'.mCb)

theorem Rests.finishes (h : Rests t p s) : Finishes t p s := by
  obtain ⟨p', s', hsolo, -, hend⟩ := h
  exact ⟨p', s', hsolo, hend⟩

theorem Finishes.step (h : Finishes t p₁ s₁) (hs : MemberStep t p s p₁ s₁)
    (hp : ∀ k, p ≠ .parked k) : Finishes t p s := by
  obtain ⟨p', s', hsolo, hend⟩ := h
  exact ⟨p', s', .step (l := ()) hs (fun k hk => absurd hk (hp k)) hsolo, hend⟩

theorem finishes_returning (r : Outcome T) : Finishes t (.returning r) s :=
  ⟨_, s, .refl _ _, .inl ⟨r, rfl⟩⟩

theorem finishes_notify (n : Notify) : Finishes t (.notify n) s := by
  cases n with
  | none => exact (finishes_returning _).step (.notify .none) nofun
  | one =>
    cases hcb : s.mCb with
    | nil => exact (finishes_returning _).step (.notify (.nobody hcb)) nofun
    | cons u us =>
      have hu : u ∈ s.mCb := by
        rw [hcb]
        exact List.mem_cons_self
      exact (finishes_returning _).step (.notify (.one hu)) nofun
  | all => exact (finishes_returning _).step (.notify .all) nofun

theorem finishes_unlockPush (n : Notify) : Finishes t (.unlockPush n) s := by
  apply Finishes.step _ (.push .unlock) nofun
  cases n with
  | none => exact finishes_returning _
  | one | all => exact finishes_notify _

theorem finishes_pushLoop (vs : List T) (n : Notify) : Finishes t (.pushLoop vs n) s := by
  induction vs generalizing s with
  | nil =>
    apply Finishes.step _ (.push .pushed) nofun
    exact finishes_unlockPush n
  | cons v vs ih =>
    apply Finishes.step _ (.push .push) nofun
    exact ih

/-- A thread that owns the mutex of its stack, or can lock it, finishes its call or parks. -/
theorem member_finishes (hr : Ready p s) (hm : ¬p.holding → s.mMut = none)
    (hsleep : Sleeps t p s) : Finishes t p s := by
  cases p with
  | returning r => exact finishes_returning r
  | lockPush vs n => exact (finishes_pushLoop vs n).step (.push (.lock (hm id))) nofun
  | pushLoop vs n => exact finishes_pushLoop vs n
  | unlockPush n => exact finishes_unlockPush n
  | notify n => exact finishes_notify n
  | lockPop k => exact (rests_lockPop (hm id)).finishes
  | tryLock => exact (finishes_returning _).step (.wait .tryLockFail) nofun
  | testEmpty k => exact leaves_testEmpty.rests.finishes
  | testInterrupt k => exact rests_testInterrupt.finishes
  | predicate k last => exact rests_predicate.finishes
  | park k =>
    exact ⟨_, _, .step (l := ()) (.wait .park) nofun (.refl _ _),
      .inr ⟨k, rfl, List.mem_cons_self⟩⟩
  | parked k => exact (rests_notified (hm id) (hsleep k rfl)).finishes
  | relock k last => exact (rests_relock (hm id)).finishes
  | retestInterrupt k => exact (leaves_retest hr).rests.finishes
  | popLoop k count out => exact leaves_popLoop.rests.finishes
  | popTop k count out =>
    obtain ⟨v, st, hv⟩ := List.exists_cons_of_ne_nil hr
    exact (leaves_popTop hv fun _ => leaves_popLoop).rests.finishes
  | popDrop k count out =>
    apply Finishes.step _ (.remove .drop) nofun
    unfold afterPopDrop
    split
    · exact (leaves_unlock _).rests.finishes
    · exact leaves_popLoop.rests.finishes
  | unlock r => exact (leaves_unlock r).rests.finishes
  | lockClear =>
    apply Finishes.step _ (.section (.lockClear (hm id))) nofun
    apply Finishes.step _ (.section .clearSize) nofun
    exact (leaves_clearLoop _).rests.finishes
  | clearSize =>
    apply Finishes.step _ (.section .clearSize) nofun
    exact (leaves_clearLoop _).rests.finishes
  | clearLoop sz => exact (leaves_clearLoop sz).rests.finishes
  | lockEmpty =>
    apply Finishes.step _ (.section (.lockEmpty (hm id))) nofun
    apply Finishes.step _ (.section .empty) nofun
    exact (leaves_unlock _).rests.finishes
  | empty =>
    apply Finishes.step _ (.section .empty) nofun
    exact (leaves_unlock _).rests.finishes
  | lockStop =>
    apply Finishes.step _ (.notify (.lockStop (hm id))) nofun
    apply Finishes.step _ (.notify .setStop) nofun
    apply Finishes.step _ (.notify .notifyStop) nofun
    exact (leaves_unlock _).rests.finishes
  | setStop =>
    apply Finishes.step _ (.notify .setStop) nofun
    apply Finishes.step _ (.notify .notifyStop) nofun
    exact (leaves_unlock _).rests.finishes
  | notifyStop =>
    apply Finishes.step _ (.notify .notifyStop) nofun
    exact (leaves_unlock _).rests.finishes

end Members

/-! ## One thread of the system -/

/-- The steps that finish calls: no new call is made, and a thread does not wake up before it
is notified. -/
def Finishing (c : Config Tid (Pc Obj T) (System Obj Tid T)) (e : Tid × Lab Obj T) : Prop :=
  (∀ call, e.2 ≠ some (.call call)) ∧
    ∀ o k, c.pc e.1 = .on o (.parked k) → e.1 ∉ (c.sh.stack o).mCb

/-- The same, as a restriction of the steps of one thread. -/
def Awake (t : Tid) (p : Pc Obj T) (s : System Obj Tid T) (l : Lab Obj T) : Prop :=
  (∀ call, l ≠ some (.call call)) ∧ ∀ o k, p = .on o (.parked k) → t ∉ (s.stack o).mCb

section System

variable [DecidableEq Obj] [DecidableEq Tid] {t : Tid} {s s' : System Obj Tid T} {o : Obj}

/-- Thread `t`, stepping alone, comes from one control point to another. -/
def Comes (t : Tid) (p : Pc Obj T) (s : System Obj Tid T) (p' : Pc Obj T) (s' : System Obj Tid T) :
    Prop :=
  Solo SystemStep (Awake t) t p s p' s'

/-- INTERNAL: a step that is no call, taken by a thread that is not parked. -/
theorem Comes.step {p p₁ p' : Pc Obj T} {s₁ : System Obj Tid T} {l : Lab Obj T}
    (h : Comes t p₁ s₁ p' s') (hs : SystemStep t p s l p₁ s₁) (hl : ∀ call, l ≠ some (.call call))
    (hp : ∀ o k, p ≠ .on o (.parked k)) : Comes t p s p' s' :=
  Solo.step hs ⟨hl, fun o k hk => absurd hk (hp o k)⟩ h

/-- INTERNAL: what a member function does alone it does in the system. -/
theorem comes_on {p p' : Loc T} {S S' : Shared Tid T}
    (h : Solo members (fun p s _ => Sleeps t p s) t p S p' S') (hS : s.stack o = S) :
    Comes t (.on o p) s (.on o p') (s.setStack o S') := by
  induction h generalizing s with
  | refl p S =>
    have hsame : s.setStack o S = s := by
      unfold System.setStack
      rw [← hS, Function.update_eq_self]
    rw [hsame]
    exact .refl _ _
  | @step p p₁ p₂ S S₁ S₂ l hs hsleep _ ih =>
    subst hS
    have hsame : (s.setStack o S₁).setStack o S₂ = s.setStack o S₂ := by
      simp [System.setStack]
    have hrest := ih (s := s.setStack o S₁) (setStack_self o S₁)
    rw [hsame] at hrest
    refine Solo.step (.member hs) ⟨nofun, fun r k hk => ?_⟩ hrest
    injection hk with ho hp
    rw [← ho]
    exact hsleep k hp

/-- INTERNAL: thread `t` alone comes to the end of its call or parks. -/
def Ends (t : Tid) (p : Pc Obj T) (s : System Obj Tid T) : Prop :=
  ∃ p' s', Comes t p s p' s' ∧
    (p' = .idle ∨ ∃ o k, p' = .on o (.parked k) ∧ t ∈ (s'.stack o).mCb)

theorem Ends.step {p p₁ : Pc Obj T} {s₁ : System Obj Tid T} {l : Lab Obj T} (h : Ends t p₁ s₁)
    (hs : SystemStep t p s l p₁ s₁) (hl : ∀ call, l ≠ some (.call call))
    (hp : ∀ o k, p ≠ .on o (.parked k)) : Ends t p s := by
  obtain ⟨p', s', hcomes, hend⟩ := h
  exact ⟨p', s', hcomes.step hs hl hp, hend⟩

theorem ends_on {p : Loc T} (h : Finishes t p (s.stack o)) : Ends t (.on o p) s := by
  obtain ⟨p', S', hsolo, hend⟩ := h
  have hcomes := comes_on hsolo rfl
  rcases hend with ⟨r, rfl⟩ | ⟨k, rfl, ht⟩
  · exact ⟨.idle, _, hcomes.snoc (.ret rfl) ⟨nofun, nofun⟩, .inl rfl⟩
  · refine ⟨_, _, hcomes, .inr ⟨o, k, rfl, ?_⟩⟩
    rw [setStack_self]
    exact ht

/-! ## Swaps -/

variable {this other : Obj}

/-- INTERNAL: giving the mutex of one operand back, if the thread owns it. -/
theorem exists_comes_unlock {p : SwapPc Obj} {q : Obj} (s : System Obj Tid T)
    (hp : ∀ f : Obj → Shared Tid T, (f q).mMut = some t →
      SwapStep t p f none p (setMut f q none)) (hret : p ≠ .returning) :
    ∃ f, Comes t (.swap p) s (.swap p) ⟨f, s.life⟩ ∧ (f q).mMut ≠ some t ∧
      ∀ r, (f r).mMut = some t → (s.stack r).mMut = some t := by
  by_cases hq : (s.stack q).mMut = some t
  · refine ⟨_, Solo.step (.swap hret (hp s.stack hq)) ⟨nofun, nofun⟩ (.refl _ _), ?_,
      fun r hr => ?_⟩
    · rw [setMut_self]
      exact nofun
    · by_cases hrq : r = q
      · subst hrq
        exact hq
      · rw [setMut_of_ne _ hrq] at hr
        exact hr
  · exact ⟨s.stack, .refl _ _, hq, fun r => id⟩

/-- INTERNAL: giving the mutexes of both operands back. -/
theorem exists_comes_unlocked {p : SwapPc Obj} (s : System Obj Tid T)
    (hp : ∀ q ∈ swapMutexes this other, ∀ f : Obj → Shared Tid T, (f q).mMut = some t →
      SwapStep t p f none p (setMut f q none)) (hret : p ≠ .returning) :
    ∃ f, Comes t (.swap p) s (.swap p) ⟨f, s.life⟩ ∧
      (∀ q ∈ swapMutexes this other, (f q).mMut ≠ some t) ∧
      ∀ r, (f r).mMut = some t → (s.stack r).mMut = some t := by
  obtain ⟨f, hf, hthis, hkeep'⟩ :=
    exists_comes_unlock s (hp this List.mem_cons_self) hret
  obtain ⟨g, hg, hother, hkeep⟩ := exists_comes_unlock ⟨f, s.life⟩
    (hp other (List.mem_cons_of_mem _ (List.mem_singleton_self _))) hret
  refine ⟨g, Solo.trans hf hg, fun q hq => ?_, fun r hr => hkeep' r (hkeep r hr)⟩
  rcases List.mem_pair.mp hq with rfl | rfl
  · exact fun hm => hthis (hkeep _ hm)
  · exact hother

theorem ends_release : Ends t (.swap (.release this other)) s := by
  obtain ⟨f, hf, hnone, -⟩ := exists_comes_unlocked (p := .release this other) (t := t) s
    (fun q hq _ hm => .release hq hm) nofun
  have hreturn := Solo.snoc hf (.swap nofun (.released hnone)) ⟨nofun, nofun⟩
  exact ⟨.idle, _, Solo.snoc hreturn (.ret rfl) ⟨nofun, nofun⟩, .inl rfl⟩

theorem Ends.swap {p p₁ : SwapPc Obj} {f : Obj → Shared Tid T}
    (h : Ends t (.swap p₁ : Pc Obj T) ⟨f, s.life⟩) (hs : SwapStep t p s.stack none p₁ f)
    (hp : p ≠ .returning) : Ends t (.swap p) s :=
  h.step (.swap hp hs) nofun nofun

theorem ends_exchange : Ends t (.swap (.exchange this other)) s := by
  refine Ends.swap ?_ .exchange nofun
  exact ends_release

/-- INTERNAL: a swap of two stacks that are free. -/
theorem ends_acquire (hne : this ≠ other) (hthis : (s.stack this).mMut = none)
    (hother : (s.stack other).mMut = none) : Ends t (.swap (.acquire this other)) s := by
  have hmem : other ∈ swapMutexes this other :=
    List.mem_cons_of_mem _ (List.mem_singleton_self _)
  refine Ends.swap ?_ (.acquire List.mem_cons_self hthis) nofun
  refine Ends.swap ?_ (.acquire hmem ?_) nofun
  · refine Ends.swap ends_exchange (.enter ?_ fun q hq => ?_) nofun
    · simpa [swapMutexes] using hne
    · rcases List.mem_pair.mp hq with rfl | rfl
      · show (setMut (setMut s.stack q (some t)) other (some t) q).mMut = some t
        rw [setMut_of_ne _ hne, setMut_self]
      · show (setMut _ q (some t) q).mMut = some t
        rw [setMut_self]
  · show (setMut s.stack this (some t) other).mMut = none
    rw [setMut_of_ne _ (Ne.symm hne)]
    exact hother

/-! ## Constructions -/

theorem ends_constructed : Ends t (.constructed this) s :=
  ⟨.idle, _, Solo.step .retMove ⟨nofun, nofun⟩ (.refl _ _), .inl rfl⟩

theorem ends_unlockMove {rhs : Obj} : Ends t (.unlockMove this rhs) s := by
  apply Ends.step _ (.construct .unlock) nofun nofun
  exact ends_constructed

theorem ends_move {rhs : Obj} : Ends t (.move this rhs) s := by
  apply Ends.step _ (.construct .move) nofun nofun
  exact ends_unlockMove

theorem ends_lockMove {rhs : Obj} (hm : (s.stack rhs).mMut = none) :
    Ends t (.lockMove this rhs) s := by
  apply Ends.step _ (.construct (.lock hm)) nofun nofun
  exact ends_move

end System

/-! ## Runs -/

/-- Only different stacks are swapped. -/
def SwapsTwo (_ : Config Tid (Pc Obj T) (System Obj Tid T)) (e : Tid × Lab Obj T) : Prop :=
  ∀ call, e.2 = some (.call (.swap call)) → (operands call).Nodup

/-- What the threads can rely on when they finish their calls. -/
structure Sound (c : Config Tid (Pc Obj T) (System Obj Tid T)) : Prop where
  lists : ∃ σ f, StacksRel c σ f
  two : ∀ t this other, c.pc t = .swap (.acquire this other) → this ≠ other

/-- A call that is finished, or a pop that waits to be notified. -/
def AtRest (c : Config Tid (Pc Obj T) (System Obj Tid T)) (t : Tid) : Prop :=
  c.pc t = .idle ∨ ∃ o k, c.pc t = .on o (.parked k) ∧ t ∈ (c.sh.stack o).mCb

section Runs

variable {c c' : Config Tid (Pc Obj T) (System Obj Tid T)} {t u : Tid} {o : Obj}

theorem Sound.inv (h : Sound c) : SystemInv c := by
  obtain ⟨σ, f, hR⟩ := h.lists
  exact hR.inv

/-- INTERNAL: the elements that a thread is going to move out are there. -/
theorem Sound.ready (h : Sound c) {p : Loc T} (hp : c.pc t = .on o p) :
    Ready p (c.sh.stack o) := by
  obtain ⟨σ, f, hR⟩ := h.lists
  have htr := hR.tracked t
  rw [hp] at htr
  obtain ⟨a, y, ha, htr, -⟩ := htr
  cases p with
  | retestInterrupt k =>
    have hst : (c.sh.stack o).mStack = a.1 := by
      apply hR.clean_for (t := t) ha
      · rw [hp]
        exact .inl ⟨rfl, trivial⟩
      · rw [hp]
        exact fun hd => hd.2
    intro hflag
    rw [hst]
    rw [hR.agrees.flag o a ha] at hflag
    exact htr.2.2 hflag
  | popTop k count out => exact htr.2.1
  | _ => trivial

/-- INTERNAL: a thread that is idle or parked owns nothing. -/
theorem Sound.owns_nothing (h : Sound c)
    (hp : c.pc t = .idle ∨ ∃ o k, c.pc t = .on o (.parked k)) (o : Obj) :
    (c.sh.stack o).mMut ≠ some t := by
  intro hm
  have hmay := (h.inv t).mayHold o hm
  rcases hp with hp | ⟨q, k, hp⟩
  · rw [hp] at hmay
    exact hmay
  · rw [hp] at hmay
    exact hmay.2

variable [DecidableEq Obj] [DecidableEq Tid]

/-- INTERNAL: whoever locks the mutexes of two stacks was called for two stacks. -/
theorem ne_of_step {p p' : Pc Obj T} {s s' : System Obj Tid T} {l : Lab Obj T} {this other : Obj}
    (hs : SystemStep t p s l p' s') (hp' : p' = .swap (.acquire this other))
    (hcall : ∀ call, l = some (.call (.swap call)) → (operands call).Nodup)
    (hp : p = .swap (.acquire this other) → this ≠ other) : this ≠ other := by
  cases hs with
  | callSwap =>
    rename_i call _
    have hnodup := hcall call rfl
    cases call with
    | member | friend =>
      cases hp'
      simpa [operands] using hnodup
  | swap hq hs =>
    cases hs with
    | acquire | backOff => exact hp hp'
    | _ => cases hp'
  | construct hs => cases hs <;> cases hp'
  | _ => cases hp'

theorem Sound.step {e : Tid × Lab Obj T} (h : Sound c) (hG : SwapsTwo c e)
    (hs : Step SystemStep c e c') : Sound c' := by
  obtain ⟨σ, f, hR⟩ := h.lists
  obtain ⟨t, l⟩ := e
  obtain ⟨v, σ', x', -, -, hR'⟩ := (stacksRel_simulates fun _ => none).follow hR trivial hs
  refine ⟨⟨σ', _, hR'⟩, fun u this other hu => ?_⟩
  obtain ⟨hs⟩ := hs
  rename_i p' s'
  replace hu : Function.update c.pc t p' u = .swap (.acquire this other) := hu
  by_cases hut : u = t
  · subst hut
    rw [Function.update_self] at hu
    exact ne_of_step hs hu hG (h.two u this other)
  · rw [Function.update_of_ne hut] at hu
    exact h.two u this other hu

theorem sound_run {init : Obj → Option (List T)} {tr : List (Tid × Lab Obj T)}
    (h : Run SystemStep SwapsTwo (start Tid init) tr c) : Sound c := by
  apply h.invariant Sound ⟨⟨_, _, stacksRel_start init⟩, nofun⟩
  exact fun _ _ _ hS hG hs => hS.step hG hs

/-- INTERNAL: what thread `t` does alone is a run, and leaves the others what they own. -/
theorem Sound.comes {p' : Pc Obj T} {s' : System Obj Tid T} (h : Sound c)
    (hc : Comes t (c.pc t) c.sh p' s') :
    ∃ tr, Run SystemStep Finishing c tr ⟨Function.update c.pc t p', s'⟩ ∧
      Sound (⟨Function.update c.pc t p', s'⟩ : Config Tid (Pc Obj T) (System Obj Tid T)) ∧
      ∀ u, u ≠ t → ∀ o, (s'.stack o).mMut = some u ↔ (c.sh.stack o).mMut = some u := by
  obtain ⟨tr, hr⟩ := Solo.run (G := Finishing) (fun _ _ hok => hok) hc
  have hrun := hr.mono fun _ _ hG => hG.1
  refine ⟨tr, hrun, ?_⟩
  apply hr.invariant (fun c' => Sound c' ∧
    ∀ u, u ≠ t → ∀ o, (c'.sh.stack o).mMut = some u ↔ (c.sh.stack o).mMut = some u)
  · exact ⟨h, fun _ _ _ => Iff.rfl⟩
  · rintro c₁ ⟨v, l⟩ c₂ ⟨hS, hkeep⟩ ⟨hfin, rfl⟩ hs
    refine ⟨hS.step (fun call hcall => absurd hcall (hfin.1 _)) hs, fun u hu o => ?_⟩
    obtain ⟨hs⟩ := hs
    obtain ⟨-, hframe⟩ := systemStep_owns (hS.inv v) hS.inv.alive hs
    exact (hframe.mutex u hu o).trans (hkeep u hu o)

/-! ## Giving the mutexes back -/

/-- INTERNAL: a thread that owns a mutex gives it back. -/
theorem Sound.gives_back (h : Sound c) (hm : (c.sh.stack o).mMut = some t) :
    ∃ p' s', Comes t (c.pc t) c.sh p' s' ∧
      ((p' = .idle ∨ ∃ o k, p' = .on o (.parked k)) ∨ ∀ o, (s'.stack o).mMut ≠ some t) := by
  have hends : ∀ {p : Pc Obj T} {s}, Ends t p s → ∃ p' s', Comes t p s p' s' ∧
      ((p' = .idle ∨ ∃ o k, p' = .on o (.parked k)) ∨ ∀ o, (s'.stack o).mMut ≠ some t) := by
    rintro p s ⟨p', s', hcomes, hend⟩
    exact ⟨p', s', hcomes, .inl (hend.imp_right fun ⟨o, k, hp, _⟩ => ⟨o, k, hp⟩)⟩
  have hmay := (h.inv t).mayHold o hm
  generalize hp : c.pc t = p at hmay
  cases p with
  | idle | lockMove | constructed => exact hmay.elim
  | on q p =>
    obtain ⟨rfl, hhold⟩ := hmay
    refine hends (ends_on (member_finishes (h.ready hp) (fun hn => absurd hhold hn) ?_))
    rintro k rfl
    exact hhold.elim
  | swap p =>
    cases p with
    | idle | returning => exact hmay.elim
    | exchange => exact hends ends_exchange
    | release => exact hends ends_release
    | acquire this other =>
      obtain ⟨f, hf, hnone, hkeep⟩ := exists_comes_unlocked (p := .acquire this other) (t := t)
        c.sh (fun q hq _ hm => .backOff hq hm) nofun
      refine ⟨_, _, hf, .inr fun r hr => ?_⟩
      have hown := (h.inv t).mayHold r (hkeep r hr)
      rw [hp] at hown
      exact hnone r hown hr
  | move => exact hends ends_move
  | unlockMove => exact hends ends_unlockMove

/-- INTERNAL: after that it owns nothing, and the others own what they owned. -/
theorem Sound.frees (h : Sound c) (ht : ¬∀ o, (c.sh.stack o).mMut ≠ some t) :
    ∃ tr c', Run SystemStep Finishing c tr c' ∧ Sound c' ∧
      (∀ o, (c'.sh.stack o).mMut ≠ some t) ∧
      ∀ u, (∀ o, (c.sh.stack o).mMut ≠ some u) → ∀ o, (c'.sh.stack o).mMut ≠ some u := by
  obtain ⟨o, hm⟩ := not_forall.mp ht
  obtain ⟨p', s', hcomes, hend⟩ := h.gives_back (not_not.mp hm)
  obtain ⟨tr, hr, hS', hkeep⟩ := h.comes hcomes
  have hself : ∀ o, (s'.stack o).mMut ≠ some t := by
    rcases hend with hp | hnone
    · refine hS'.owns_nothing ?_
      simpa using hp
    · exact hnone
  refine ⟨tr, _, hr, hS', hself, fun u hu => ?_⟩
  by_cases hut : u = t
  · rw [hut]
    exact hself
  · exact fun o ho => hu o ((hkeep u hut o).mp ho)

/-- INTERNAL: all mutexes can be given back. -/
theorem Sound.exists_free (h : Sound c) (hfin : {t | c.pc t ≠ .idle}.Finite) :
    ∃ tr c', Run SystemStep Finishing c tr c' ∧ Sound c' ∧ ∀ o, (c'.sh.stack o).mMut = none := by
  obtain ⟨tr, c', hr, hS, hall⟩ := exists_run_settled (G := Finishing)
    (R := fun c t => ∀ o, (c.sh.stack o).mMut ≠ some t)
    (fun _ _ hS ht => Sound.frees hS ht) h
    (hfin.subset fun t ht hidle => ht (h.owns_nothing (.inl hidle)))
  exact ⟨tr, c', hr, hS, fun o => Option.eq_none_iff_forall_ne_some.mpr fun t => hall t o⟩

/-! ## Finishing the calls -/

/-- INTERNAL: with all mutexes free a thread finishes its call or parks. -/
theorem Sound.ends (h : Sound c) (hfree : ∀ o, (c.sh.stack o).mMut = none)
    (hp : ∀ o k, c.pc t = .on o (.parked k) → t ∉ (c.sh.stack o).mCb) :
    Ends t (c.pc t) c.sh := by
  have hholds : ∀ o, ¬(c.pc t).holds o := fun o ho => by
    have hm := (h.inv t).holds o ho
    rw [hfree o] at hm
    cases hm
  generalize hpc : c.pc t = p at hholds
  cases p with
  | idle => exact ⟨.idle, _, .refl _ _, .inl rfl⟩
  | on o p =>
    refine ends_on (member_finishes (h.ready hpc) (fun _ => hfree o) fun k hk => hp o k ?_)
    rw [hpc, hk]
  | swap p =>
    cases p with
    | idle =>
      obtain ⟨σ, f, hR⟩ := h.lists
      have htr := hR.tracked t
      rw [hpc] at htr
      exact htr.elim
    | acquire this other => exact ends_acquire (h.two t this other hpc) (hfree _) (hfree _)
    | exchange => exact ends_exchange
    | release => exact ends_release
    | returning => exact ⟨.idle, _, Solo.step (.ret rfl) ⟨nofun, nofun⟩ (.refl _ _), .inl rfl⟩
  | lockMove this rhs => exact ends_lockMove (hfree rhs)
  | move => exact ends_move
  | unlockMove => exact ends_unlockMove
  | constructed => exact ends_constructed

/-- All mutexes are free. -/
structure Free (c : Config Tid (Pc Obj T) (System Obj Tid T)) : Prop where
  sound : Sound c
  free : ∀ o, (c.sh.stack o).mMut = none

omit [DecidableEq Obj] in
/-- INTERNAL: when the thread that stepped alone is idle or parked, all mutexes are free
again. -/
theorem Free.again {p' : Pc Obj T} {s' : System Obj Tid T} (h : Free c)
    (hS : Sound (⟨Function.update c.pc t p', s'⟩ : Config Tid (Pc Obj T) (System Obj Tid T)))
    (hp' : p' = .idle ∨ ∃ o k, p' = .on o (.parked k))
    (hkeep : ∀ u, u ≠ t → ∀ o, (s'.stack o).mMut = some u ↔ (c.sh.stack o).mMut = some u) :
    Free (⟨Function.update c.pc t p', s'⟩ : Config Tid (Pc Obj T) (System Obj Tid T)) := by
  refine ⟨hS, fun o => Option.eq_none_iff_forall_ne_some.mpr fun u hu => ?_⟩
  by_cases hut : u = t
  · subst hut
    refine hS.owns_nothing (t := u) ?_ o hu
    simpa using hp'
  · have hold := (hkeep u hut o).mp hu
    rw [h.free o] at hold
    cases hold

/-- Idle or parked. -/
def Waits (c : Config Tid (Pc Obj T) (System Obj Tid T)) (t : Tid) : Prop :=
  c.pc t = .idle ∨ ∃ o k, c.pc t = .on o (.parked k)

/-- INTERNAL: a thread that is neither idle nor parked gets there. -/
theorem Free.waits (h : Free c) (ht : ¬Waits c t) :
    ∃ tr c', Run SystemStep Finishing c tr c' ∧ Free c' ∧ Waits c' t ∧
      ∀ u, Waits c u → Waits c' u := by
  obtain ⟨p', s', hcomes, hend⟩ := h.sound.ends (t := t) h.free
    fun o k hp => absurd (.inr ⟨o, k, hp⟩) ht
  obtain ⟨tr, hr, hS', hkeep⟩ := h.sound.comes hcomes
  have hp' : p' = .idle ∨ ∃ o k, p' = .on o (.parked k) :=
    hend.imp_right fun ⟨o, k, hp, _⟩ => ⟨o, k, hp⟩
  refine ⟨tr, _, hr, h.again hS' hp' hkeep, by simpa [Waits] using hp', fun u hu => ?_⟩
  have hut : u ≠ t := by
    rintro rfl
    exact ht hu
  simpa [Waits, Function.update_of_ne hut] using hu

/-! ## The pops that have been notified -/

/-- INTERNAL: a pop that has been notified comes to rest, and nobody else wakes up. -/
theorem Free.rests (h : Free c) (hall : ∀ u, Waits c u) (ht : ¬AtRest c t) :
    ∃ tr c', Run SystemStep Finishing c tr c' ∧ (Free c' ∧ ∀ u, Waits c' u) ∧ AtRest c' t ∧
      ∀ u, AtRest c u → AtRest c' u := by
  obtain ⟨o, k, hp⟩ := (hall t).resolve_left fun hidle => ht (.inl hidle)
  have hmem : t ∉ (c.sh.stack o).mCb := fun hm => ht (.inr ⟨o, k, hp, hm⟩)
  obtain ⟨p', S', hsolo, hcb, hend⟩ := rests_notified (k := k) (h.free o) hmem
  -- the call of the thread, seen from the system
  have hcomes : ∃ q s', Comes t (c.pc t) c.sh q s' ∧ s' = c.sh.setStack o S' ∧
      (q = .idle ∨ ∃ k, q = .on o (.parked k) ∧ t ∈ S'.mCb) := by
    rw [hp]
    have hon := comes_on hsolo (s := c.sh) (o := o) rfl
    rcases hend with ⟨r, rfl⟩ | ⟨k, rfl, hm⟩
    · exact ⟨.idle, _, Solo.snoc hon (.ret rfl) ⟨nofun, nofun⟩, rfl, .inl rfl⟩
    · exact ⟨_, _, hon, rfl, .inr ⟨k, rfl, hm⟩⟩
  obtain ⟨q, s', hcomes, rfl, hq⟩ := hcomes
  obtain ⟨tr, hr, hS', hkeep⟩ := h.sound.comes hcomes
  have hq' : q = .idle ∨ ∃ o k, q = .on o (.parked k) :=
    hq.imp_right fun ⟨k, hp, _⟩ => ⟨o, k, hp⟩
  refine ⟨tr, _, hr, ⟨h.again hS' hq' hkeep, fun u => ?_⟩, ?_, fun u hu => ?_⟩
  · by_cases hut : u = t
    · subst hut
      simpa [Waits] using hq'
    · simpa [Waits, Function.update_of_ne hut] using hall u
  · rcases hq with rfl | ⟨k, rfl, hm⟩
    · exact .inl (Function.update_self ..)
    · refine .inr ⟨o, k, Function.update_self .., ?_⟩
      show t ∈ ((c.sh.setStack o S').stack o).mCb
      rw [setStack_self]
      exact hm
  · have hut : u ≠ t := by
      rintro rfl
      exact ht hu
    have hpu : Function.update c.pc t q u = c.pc u := Function.update_of_ne hut ..
    rcases hu with hu | ⟨r, k, hu, hm⟩
    · exact .inl (hpu.trans hu)
    · refine .inr ⟨r, k, hpu.trans hu, ?_⟩
      show u ∈ ((c.sh.setStack o S').stack r).mCb
      by_cases hro : r = o
      · subst hro
        rw [setStack_self]
        exact hcb u hut hm
      · rw [setStack_of_ne hro]
        exact hm

/-- **Several stacks do not deadlock.** Every run in which only different stacks are swapped
can be continued, without new calls, spurious wake-ups and early timeouts, until every call
has returned or is a pop that waits to be notified. -/
theorem run_comes_to_rest {init : Obj → Option (List T)} {tr : List (Tid × Lab Obj T)}
    (h : Run SystemStep SwapsTwo (start Tid init) tr c) :
    ∃ tr' c', Run SystemStep Finishing c tr' c' ∧ ∀ t, AtRest c' t := by
  have hmoved : ∀ {tr c}, Run SystemStep anyStep (start Tid init) tr c →
      {t | c.pc t ≠ (.idle : Pc Obj T)}.Finite := fun hr => hr.finite_moved
  obtain ⟨tr₁, c₁, hr₁, hS₁, hfree⟩ := (sound_run h).exists_free (hmoved h.any)
  have hany₁ := h.any.trans hr₁.any
  obtain ⟨tr₂, c₂, hr₂, hF₂, hwait⟩ := exists_run_settled (G := Finishing) (R := Waits)
    (fun _ _ hF ht => Free.waits hF ht) (⟨hS₁, hfree⟩ : Free c₁)
    ((hmoved hany₁).subset fun t ht hidle => ht (.inl hidle))
  have hany₂ := hany₁.trans hr₂.any
  obtain ⟨tr₃, c₃, hr₃, -, hrest⟩ := exists_run_settled (G := Finishing) (R := AtRest)
    (I := fun c => Free c ∧ ∀ u, Waits c u)
    (fun _ _ hI ht => Free.rests hI.1 hI.2 ht) ⟨hF₂, hwait⟩
    ((hmoved hany₂).subset fun t ht hidle => ht (.inl hidle))
  exact ⟨_, c₃, (hr₁.trans hr₂).trans hr₃, hrest⟩

/-- Two threads swap the same stacks in opposite order, and each owns one mutex. -/
theorem run_comes_to_rest_crossed :
    ∃ (c : Config Bool (Pc Bool ℕ) (System Bool Bool ℕ)) (tr : List (Bool × Lab Bool ℕ)),
      Run SystemStep SwapsTwo (start Bool fun _ => some []) tr c ∧
        (c.sh.stack true).mMut = some true ∧ (c.sh.stack false).mMut = some false ∧
        ∃ tr' c', Run SystemStep Finishing c tr' c' ∧ ∀ t, AtRest c' t := by
  have two : ∀ {c : Config Bool (Pc Bool ℕ) (System Bool Bool ℕ)} {t : Bool} (x y : Bool), x ≠ y →
      SwapsTwo c (t, some (.call (.swap (.member x y)))) := by
    intro c t x y hne call hcall
    cases hcall
    simpa [operands] using hne
  have quiet : ∀ {c : Config Bool (Pc Bool ℕ) (System Bool Bool ℕ)} {t : Bool},
      SwapsTwo c (t, none) := fun _ h => by cases h
  have h₁ := (Run.nil : Run SystemStep SwapsTwo
    (start Bool fun _ : Bool => some ([] : List ℕ)) [] _).snoc true (two true false nofun)
    (.callSwap (.member true false) (by decide))
  have h₂ := h₁.snoc true quiet (.swap nofun (.acquire (q := true) (by decide) rfl))
  have h₃ := h₂.snoc false (two false true nofun)
    (.callSwap (.member false true) (by decide))
  have h₄ := h₃.snoc false quiet (.swap nofun (.acquire (q := false) (by decide) rfl))
  exact ⟨_, _, h₄, rfl, rfl, run_comes_to_rest h₄⟩

end Runs

end UbuntuProjects.TsStackSystem
