import UbuntuProjects.Model.TsStackSystem
import UbuntuProjects.Analysis.TsStackSwap

/-!
# What the threads that use several stacks own

A thread inside a member function owns the mutex of its stack exactly between locking and
unlocking it (`Loc.holding`). A thread inside the constructor or the destructor of a
`std::scoped_lock` owns some of the mutexes of the operands, and while it exchanges the
elements all of them. Only stacks that are alive are used, and a stack is constructed by one
thread. This holds in every configuration of every run (`systemInv_run`).
-/

set_option autoImplicit false

namespace UbuntuProjects.TsStackSystem

open Concurrency
open TsQueue (Notify Take)
open TsStack (Shared Op Outcome SwapCall SwapPc SwapStep swapMutexes setMut)

variable {Obj Tid T : Type}

/-! ## Member functions -/

/-- The control points between locking and unlocking `m_mut`. -/
def Loc.holding : Loc T → Prop
  | .pushLoop _ _ => True
  | .unlockPush _ => True
  | .testEmpty _ => True
  | .testInterrupt _ => True
  | .predicate _ _ => True
  | .park _ => True
  | .retestInterrupt _ => True
  | .popLoop _ _ _ => True
  | .popTop _ _ _ => True
  | .popDrop _ _ _ => True
  | .unlock _ => True
  | .clearSize => True
  | .clearLoop _ => True
  | .empty => True
  | .setStop => True
  | .notifyStop => True
  | _ => False

section Holding

variable {k : Take} {n : Notify} {op : Op T} {count : ℤ} {out st : List T} {last interrupt : Bool}

@[simp] theorem not_holding_entry : ¬(entry op).holding := by
  cases op <;> exact id

@[simp] theorem not_holding_afterPush : ¬(afterPush n : Loc T).holding := by
  cases n <;> exact id

@[simp] theorem holding_popStart : (popStart k : Loc T).holding := by
  unfold popStart
  split <;> trivial

@[simp] theorem holding_afterLockPop : (afterLockPop k : Loc T).holding := by
  unfold afterLockPop
  split
  · split
    · trivial
    · exact holding_popStart
  · trivial

@[simp] theorem holding_afterTestEmpty : (afterTestEmpty k st).holding := by
  unfold afterTestEmpty
  split
  · trivial
  · exact holding_popStart

@[simp] theorem holding_afterTestInterrupt : (afterTestInterrupt k interrupt : Loc T).holding := by
  unfold afterTestInterrupt
  split <;> trivial

@[simp] theorem holding_afterPredicate : (afterPredicate k last interrupt st).holding := by
  unfold afterPredicate
  split
  · trivial
  · split <;> trivial

@[simp] theorem holding_afterRetest : (afterRetest k interrupt : Loc T).holding := by
  unfold afterRetest
  split
  · trivial
  · exact holding_popStart

@[simp] theorem holding_afterPopLoop : (afterPopLoop k count out st).holding := by
  unfold afterPopLoop
  split <;> trivial

@[simp] theorem holding_afterPopDrop : (afterPopDrop k count out).holding := by
  unfold afterPopDrop
  split <;> trivial

end Holding

/-- How a step may treat a mutex: not at all, lock it, or unlock it. -/
def MutexStep (t : Tid) (m m' : Option Tid) (held held' : Prop) : Prop :=
  m' = m ∧ (held' ↔ held) ∨ m = none ∧ m' = some t ∧ held' ∨ held ∧ m' = none ∧ ¬held'

section Members

variable {s s' : Shared Tid T} {t : Tid} {p p' : Loc T}

/-- INTERNAL: a step inside a section. -/
theorem mutexStep_inside {m : Option Tid} (h : p.holding) (h' : p'.holding) :
    MutexStep t m m p.holding p'.holding :=
  .inl ⟨rfl, iff_of_true h' h⟩

/-- INTERNAL: a step outside all sections. -/
theorem mutexStep_outside {m : Option Tid} (h : ¬p.holding) (h' : ¬p'.holding) :
    MutexStep t m m p.holding p'.holding :=
  .inl ⟨rfl, iff_of_false h' h⟩

/-- INTERNAL: a section is entered. -/
theorem mutexStep_lock {m : Option Tid} (h : m = none) (h' : p'.holding) :
    MutexStep t m (some t) p.holding p'.holding :=
  .inr (.inl ⟨h, rfl, h'⟩)

/-- INTERNAL: a section is left. -/
theorem mutexStep_unlock {m : Option Tid} (h : p.holding) (h' : ¬p'.holding) :
    MutexStep t m none p.holding p'.holding :=
  .inr (.inr ⟨h, rfl, h'⟩)

variable [DecidableEq Tid]

/-- A step inside a member function locks and unlocks `m_mut` as its control points say. -/
theorem memberStep_mutex (h : MemberStep t p s p' s') :
    MutexStep t s.mMut s'.mMut p.holding p'.holding := by
  cases h with
  | push h =>
    cases h with
    | lock hm => exact mutexStep_lock hm trivial
    | push | threw | pushed => exact mutexStep_inside trivial trivial
    | unlock => exact mutexStep_unlock trivial not_holding_afterPush
  | notify h =>
    cases h with
    | none | one | nobody | all => exact mutexStep_outside id id
    | lockStop hm => exact mutexStep_lock hm trivial
    | setStop | notifyStop => exact mutexStep_inside trivial trivial
  | wait h =>
    cases h with
    | lock hm => exact mutexStep_lock hm holding_afterLockPop
    | tryLock hm | relock hm => exact mutexStep_lock hm trivial
    | tryLockFail | notified | spurious | timeout => exact mutexStep_outside id id
    | testEmpty => exact mutexStep_inside trivial holding_afterTestEmpty
    | testInterrupt => exact mutexStep_inside trivial holding_afterTestInterrupt
    | predicate => exact mutexStep_inside trivial holding_afterPredicate
    | retest => exact mutexStep_inside trivial holding_afterRetest
    | park => exact mutexStep_unlock trivial id
  | remove h =>
    cases h with
    | loop => exact mutexStep_inside trivial holding_afterPopLoop
    | top | threw => exact mutexStep_inside trivial trivial
    | drop => exact mutexStep_inside trivial holding_afterPopDrop
  | «section» h =>
    cases h with
    | lockClear hm | lockEmpty hm => exact mutexStep_lock hm trivial
    | clearSize | clearPop | cleared | empty => exact mutexStep_inside trivial trivial
    | unlock => exact mutexStep_unlock trivial id

/-- Outside the sections the elements and the flag stay as they are. -/
theorem memberStep_elements (h : MemberStep t p s p' s') (hp : ¬p.holding) :
    s'.mStack = s.mStack ∧ s'.mInterruptWaiting = s.mInterruptWaiting := by
  cases h with
  | push h => cases h <;> first | exact ⟨rfl, rfl⟩ | exact absurd trivial hp
  | notify h => cases h <;> first | exact ⟨rfl, rfl⟩ | exact absurd trivial hp
  | wait h => cases h <;> exact ⟨rfl, rfl⟩
  | remove h => cases h <;> exact absurd trivial hp
  | «section» h => cases h <;> first | exact ⟨rfl, rfl⟩ | exact absurd trivial hp

end Members

/-! ## One thread -/

/-- The stacks whose mutex a thread owns for certain. -/
def Pc.holds : Pc Obj T → Obj → Prop
  | .on o p, q => q = o ∧ p.holding
  | .swap (.exchange this other), q => q ∈ swapMutexes this other
  | .move _ rhs, q => q = rhs
  | .unlockMove _ rhs, q => q = rhs
  | _, _ => False

/-- The stacks that a thread uses. -/
def Pc.uses : Pc Obj T → Obj → Prop
  | .on o _, q => q = o
  | .swap (.acquire this other), q => q ∈ swapMutexes this other
  | .swap (.exchange this other), q => q ∈ swapMutexes this other
  | .swap (.release this other), q => q ∈ swapMutexes this other
  | .lockMove _ rhs, q => q = rhs
  | .move _ rhs, q => q = rhs
  | .unlockMove _ rhs, q => q = rhs
  | _, _ => False

/-- The stacks whose mutex a thread may own. -/
def Pc.mayHold : Pc Obj T → Obj → Prop
  | .swap p, q => (Pc.swap p : Pc Obj T).uses q
  | p, q => p.holds q

/-- The stack that a thread is constructing. -/
def Pc.constructs : Pc Obj T → Obj → Prop
  | .lockMove this _, q => q = this
  | .move this _, q => q = this
  | .unlockMove this _, q => q = this
  | .constructed this, q => q = this
  | _, _ => False

/-- What thread `t` owns at the control point `p`. -/
structure Owns (s : System Obj Tid T) (t : Tid) (p : Pc Obj T) : Prop where
  holds : ∀ o, p.holds o → (s.stack o).mMut = some t
  mayHold : ∀ o, (s.stack o).mMut = some t → p.mayHold o
  uses : ∀ o, p.uses o → s.life o = .alive
  constructs : ∀ o, s.life o = .constructing t ↔ p.constructs o

theorem Pc.uses_of_mayHold {p : Pc Obj T} {o : Obj} (h : p.mayHold o) : p.uses o := by
  cases p with
  | idle => exact h.elim
  | on q p => exact h.1
  | swap p => exact h
  | lockMove | constructed => exact h.elim
  | move | unlockMove => exact h

/-- What a step of thread `t` leaves alone from the point of view of the others. -/
structure Frame (t : Tid) (s s' : System Obj Tid T) : Prop where
  mutex : ∀ u, u ≠ t → ∀ o, (s'.stack o).mMut = some u ↔ (s.stack o).mMut = some u
  alive : ∀ o, s.life o = .alive → s'.life o = .alive
  life : ∀ u, u ≠ t → ∀ o, s'.life o = .constructing u ↔ s.life o = .constructing u

section Steps

variable {s s' : System Obj Tid T} {t u : Tid} {p p' : Pc Obj T} {l : Lab Obj T}

/-- INTERNAL: the other threads own what they owned. -/
theorem Owns.frame (h : Owns s u p) (hf : Frame t s s') (hu : u ≠ t) : Owns s' u p where
  holds o ho := (hf.mutex u hu o).mpr (h.holds o ho)
  mayHold o ho := h.mayHold o ((hf.mutex u hu o).mp ho)
  uses o ho := hf.alive o (h.uses o ho)
  constructs o := (hf.life u hu o).trans (h.constructs o)

/-- INTERNAL: a step that writes no mutex and no lifetime. -/
theorem frame_of_eq (hm : ∀ o, (s'.stack o).mMut = (s.stack o).mMut) (hl : s'.life = s.life) :
    Frame t s s' where
  mutex u _ o := by rw [hm]
  alive o ho := by rw [hl]; exact ho
  life u _ o := by rw [hl]

/-- INTERNAL: the mutex of one stack, free or owned by the thread before and after. -/
theorem frame_setMutex {o : Obj} (hl : s'.life = s.life)
    (hne : ∀ q, q ≠ o → (s'.stack q).mMut = (s.stack q).mMut)
    (hm : (s.stack o).mMut = (s'.stack o).mMut ∨
      ((s.stack o).mMut = none ∨ (s.stack o).mMut = some t) ∧
        ((s'.stack o).mMut = none ∨ (s'.stack o).mMut = some t)) : Frame t s s' where
  mutex u hu q := by
    have hfree : ∀ m : Option Tid, m = none ∨ m = some t → ¬m = some u := by
      rintro m (rfl | rfl) h
      · cases h
      · exact hu (Option.some.inj h).symm
    by_cases hq : q = o
    · subst hq
      rcases hm with heq | ⟨h₁, h₂⟩
      · rw [heq]
      · exact iff_of_false (hfree _ h₂) (hfree _ h₁)
    · rw [hne q hq]
  alive o ho := by rw [hl]; exact ho
  life u _ o := by rw [hl]

variable [DecidableEq Obj]

@[simp] theorem setStack_life (o : Obj) (S : Shared Tid T) : (s.setStack o S).life = s.life := rfl

theorem setStack_self (o : Obj) (S : Shared Tid T) : (s.setStack o S).stack o = S :=
  Function.update_self ..

theorem setStack_of_ne {o q : Obj} (h : q ≠ o) (S : Shared Tid T) :
    (s.setStack o S).stack q = s.stack q :=
  Function.update_of_ne h ..

theorem setMut_self (f : Obj → Shared Tid T) (o : Obj) (m : Option Tid) :
    setMut f o m o = { f o with mMut := m } :=
  Function.update_self ..

theorem setMut_of_ne (f : Obj → Shared Tid T) {o q : Obj} (h : q ≠ o) (m : Option Tid) :
    setMut f o m q = f q :=
  Function.update_of_ne h ..

/-- INTERNAL: a mutex that a thread takes or gives back while it is inside the constructor or
the destructor of its `std::scoped_lock`. -/
theorem owns_setMut {this other q : Obj} {m : Option Tid} {p p' : SwapPc Obj}
    (h : Owns s t (.swap p)) (hq : q ∈ swapMutexes this other)
    (hp : ∀ o, (Pc.swap p : Pc Obj T).uses o ↔ o ∈ swapMutexes this other)
    (hp' : ∀ o, (Pc.swap p' : Pc Obj T).uses o ↔ o ∈ swapMutexes this other)
    (hnone : ∀ o, ¬(Pc.swap p' : Pc Obj T).holds o) (hm : m = none ∨ m = some t)
    (hown : (s.stack q).mMut = none ∨ (s.stack q).mMut = some t) :
    Owns ⟨setMut s.stack q m, s.life⟩ t (.swap p' : Pc Obj T) ∧
      Frame t s ⟨setMut s.stack q m, s.life⟩ := by
  refine ⟨⟨fun o ho => absurd ho (hnone o), fun o ho => (hp' o).mpr ?_,
    fun o ho => h.uses o ((hp o).mpr ((hp' o).mp ho)), h.constructs⟩, ?_⟩
  · by_cases hoq : o = q
    · rw [hoq]
      exact hq
    · have ho' : (setMut s.stack q m o).mMut = some t := ho
      rw [setMut_of_ne _ hoq] at ho'
      exact (hp o).mp (h.mayHold o ho')
  · have hself : (setMut s.stack q m q).mMut = m := by rw [setMut_self]
    exact frame_setMutex rfl (fun o ho => congrArg Shared.mMut (setMut_of_ne _ ho m))
      (.inr ⟨hown, hm.imp hself.trans hself.trans⟩)

variable [DecidableEq Tid]

/-- INTERNAL: a step inside a member function of the stack `o`. -/
theorem memberStep_owns {o : Obj} {q q' : Loc T} {S : Shared Tid T} (h : Owns s t (.on o q))
    (hs : MemberStep t q (s.stack o) q' S) :
    Owns (s.setStack o S) t (.on o q' : Pc Obj T) ∧ Frame t s (s.setStack o S) := by
  have hmut := memberStep_mutex hs
  have howner : q.holding → (s.stack o).mMut = some t := fun hq => h.holds o ⟨rfl, hq⟩
  have helse : ∀ r, r ≠ o → (s.stack r).mMut ≠ some t := fun r hr hm => hr (h.mayHold r hm).1
  have hself : S.mMut = some t ↔ q'.holding := by
    rcases hmut with ⟨hm, hq⟩ | ⟨-, hm, hq⟩ | ⟨-, hm, hq⟩
    · rw [hm, hq]
      exact ⟨fun hm => (h.mayHold o hm).2, howner⟩
    · exact iff_of_true hm hq
    · exact iff_of_false (by simp [hm]) hq
  refine ⟨⟨?_, ?_, h.uses, h.constructs⟩, ?_⟩
  · rintro r ⟨rfl, hq⟩
    rw [setStack_self]
    exact hself.mpr hq
  · intro r hr
    by_cases hro : r = o
    · subst hro
      rw [setStack_self] at hr
      exact ⟨rfl, hself.mp hr⟩
    · rw [setStack_of_ne hro] at hr
      exact absurd hr (helse r hro)
  · apply frame_setMutex (o := o) (setStack_life o S)
    · intro r hr
      rw [setStack_of_ne hr]
    · rw [setStack_self]
      rcases hmut with ⟨hm, -⟩ | ⟨hm, hm', -⟩ | ⟨hq, hm', -⟩
      · exact .inl hm.symm
      · exact .inr ⟨.inl hm, .inr hm'⟩
      · exact .inr ⟨.inr (howner hq), .inl hm'⟩

omit [DecidableEq Tid] in
/-- INTERNAL: a step of a thread that swaps two stacks. -/
theorem swapStep_owns {q q' : SwapPc Obj} {f : Obj → Shared Tid T} (h : Owns s t (.swap q))
    (hq : q ≠ .returning) (hs : SwapStep t q s.stack none q' f) :
    Owns { s with stack := f } t (.swap q' : Pc Obj T) ∧ Frame t s { s with stack := f } := by
  cases hs with
  | acquire hmem hm =>
    exact owns_setMut h hmem (fun _ => Iff.rfl) (fun _ => Iff.rfl) (fun _ => id) (.inr rfl)
      (.inl hm)
  | backOff hmem hm | release hmem hm =>
    exact owns_setMut h hmem (fun _ => Iff.rfl) (fun _ => Iff.rfl) (fun _ => id) (.inl rfl)
      (.inr hm)
  | enter hnodup hall =>
    exact ⟨⟨hall, h.mayHold, h.uses, h.constructs⟩, frame_of_eq (fun _ => rfl) rfl⟩
  | @exchange _ this other =>
    refine ⟨⟨fun _ => False.elim, fun o ho => ?_, h.uses, h.constructs⟩,
      frame_of_eq (fun o => TsStack.exchangeStacks_mMut _ _ _ _) rfl⟩
    exact h.mayHold o ((TsStack.exchangeStacks_mMut s.stack this other o).symm.trans ho)
  | released hnone =>
    exact ⟨⟨fun _ => False.elim, fun o ho => hnone o (h.mayHold o ho) ho, fun _ => False.elim,
      h.constructs⟩, frame_of_eq (fun _ => rfl) rfl⟩
  | ret => exact absurd rfl hq

omit [DecidableEq Tid] in
/-- INTERNAL: a step of a thread that constructs a stack. -/
theorem constructStep_owns (h : Owns s t p)
    (hused : ∀ u o, (s.stack o).mMut = some u → s.life o = .alive)
    (hs : ConstructStep t p s p' s') : Owns s' t p' ∧ Frame t s s' := by
  cases hs with
  | @lock _ this rhs hm =>
    refine ⟨⟨?_, fun o ho => ?_, h.uses, h.constructs⟩, ?_⟩
    · rintro o rfl
      rw [setStack_self]
    · by_contra hne
      rw [setStack_of_ne hne] at ho
      exact h.mayHold o ho
    · refine frame_setMutex (o := rhs) rfl (fun o ho => by rw [setStack_of_ne ho])
        (.inr ⟨.inl hm, ?_⟩)
      rw [setStack_self]
      exact .inr rfl
  | @move _ this rhs =>
    have hlife : s.life this = .constructing t := (h.constructs this).mpr rfl
    have hrhs : s.life rhs = .alive := h.uses rhs rfl
    have hne : rhs ≠ this := by
      rintro rfl
      simp [hlife] at hrhs
    have hfree : ∀ u, (s.stack this).mMut ≠ some u := fun u hu => by
      have halive := hused u this hu
      simp [hlife] at halive
    have hnone : (s.stack this).mMut = none := Option.eq_none_iff_forall_ne_some.mpr hfree
    have hsame : ∀ o, (((s.setStack rhs { s.stack rhs with mStack := [] }).setStack this
        ⟨none, [], false, (s.stack rhs).mStack⟩).stack o).mMut = (s.stack o).mMut := by
      intro o
      by_cases ho : o = this
      · subst ho
        rw [setStack_self, hnone]
      · rw [setStack_of_ne ho]
        by_cases ho' : o = rhs
        · subst ho'
          rw [setStack_self]
        · rw [setStack_of_ne ho']
    refine ⟨⟨?_, fun o ho => ?_, h.uses, h.constructs⟩, frame_of_eq hsame rfl⟩
    · rintro o rfl
      exact (hsame o).trans (h.holds o rfl)
    · exact h.mayHold o ((hsame o).symm.trans ho)
  | @unlock _ this rhs =>
    refine ⟨⟨fun _ => False.elim, fun o ho => ?_, fun _ => False.elim, h.constructs⟩, ?_⟩
    · by_cases hor : o = rhs
      · subst hor
        rw [setStack_self] at ho
        cases ho
      · rw [setStack_of_ne hor] at ho
        exact hor (h.mayHold o ho)
    · refine frame_setMutex (o := rhs) rfl (fun o ho => by rw [setStack_of_ne ho])
        (.inr ⟨.inr (h.holds rhs rfl), ?_⟩)
      rw [setStack_self]
      exact .inl rfl

omit [DecidableEq Obj] [DecidableEq Tid] in
/-- INTERNAL: a thread that owns nothing and uses and constructs nothing. -/
theorem owns_idle (h : ∀ o, (s.stack o).mMut ≠ some t) (hl : ∀ o, s.life o ≠ .constructing t) :
    Owns s t (.idle : Pc Obj T) where
  holds _ := False.elim
  mayHold o ho := h o ho
  uses _ := False.elim
  constructs o := iff_of_false (hl o) id

theorem systemStep_owns (h : Owns s t p)
    (hused : ∀ u o, (s.stack o).mMut = some u → s.life o = .alive)
    (hs : SystemStep t p s l p' s') : Owns s' t p' ∧ Frame t s s' := by
  cases hs with
  | @callOn _ o op halive =>
    refine ⟨⟨fun q hq => absurd hq.2 not_holding_entry, fun q hq => (h.mayHold q hq).elim, ?_,
      h.constructs⟩, frame_of_eq (fun _ => rfl) rfl⟩
    rintro q rfl
    exact halive
  | @callSwap _ call halive =>
    refine ⟨⟨?_, fun q hq => (h.mayHold q hq).elim, ?_, ?_⟩, frame_of_eq (fun _ => rfl) rfl⟩
    · cases call <;> exact fun _ => False.elim
    · cases call <;> exact halive
    · cases call <;> exact h.constructs
  | @callMove _ this rhs halive hstorage =>
    refine ⟨⟨fun _ => False.elim, fun q hq => (h.mayHold q hq).elim, ?_, fun q => ?_⟩,
      ⟨fun _ _ _ => Iff.rfl, fun q hq => ?_, fun u hu q => ?_⟩⟩
    · rintro q rfl
      show Function.update s.life this _ q = _
      rw [Function.update_of_ne (by rintro rfl; simp [hstorage] at halive)]
      exact halive
    · show Function.update s.life this _ q = _ ↔ q = this
      by_cases hq : q = this
      · subst hq
        simp
      · rw [Function.update_of_ne hq]
        exact iff_of_false (fun hl => (h.constructs q).mp hl) hq
    · show Function.update s.life this _ q = _
      rw [Function.update_of_ne (by rintro rfl; simp [hstorage] at hq)]
      exact hq
    · show Function.update s.life this _ q = _ ↔ _
      by_cases hq : q = this
      · subst hq
        simp [hstorage, Ne.symm hu]
      · rw [Function.update_of_ne hq]
  | member hs => exact memberStep_owns h hs
  | swap hq hs => exact swapStep_owns h hq hs
  | construct hs => exact constructStep_owns h hused hs
  | @ret _ p r hr =>
    refine ⟨owns_idle (fun o ho => ?_) (fun o ho => ?_), frame_of_eq (fun _ => rfl) rfl⟩
    · have hmay := h.mayHold o ho
      cases p with
      | on q p =>
        cases p with
        | returning r => exact hmay.2
        | _ => cases hr
      | swap p =>
        cases p with
        | returning => exact hmay
        | _ => cases hr
      | _ => cases hr
    · have hcon := (h.constructs o).mp ho
      cases p with
      | on | swap => exact hcon
      | _ => cases hr
  | @retMove _ this =>
    refine ⟨owns_idle (fun o ho => h.mayHold o ho) (fun o ho => ?_),
      ⟨fun _ _ _ => Iff.rfl, fun q hq => ?_, fun u hu q => ?_⟩⟩
    · by_cases ho' : o = this
      · subst ho'
        simp [System.setLife] at ho
      · simp only [System.setLife, Function.update_of_ne ho'] at ho
        exact ho' ((h.constructs o).mp ho)
    · show Function.update s.life this _ q = _
      by_cases hq' : q = this
      · subst hq'
        rw [Function.update_self]
      · rw [Function.update_of_ne hq']
        exact hq
    · show Function.update s.life this _ q = _ ↔ _
      by_cases hq : q = this
      · subst hq
        simp [(h.constructs q).mpr rfl, Ne.symm hu]
      · rw [Function.update_of_ne hq]

end Steps

/-! ## Runs -/

/-- What holds in every configuration of every run. -/
def SystemInv (c : Config Tid (Pc Obj T) (System Obj Tid T)) : Prop :=
  ∀ t, Owns c.sh t (c.pc t)

section Runs

variable {c c' : Config Tid (Pc Obj T) (System Obj Tid T)} {t u : Tid} {o : Obj}

/-- INTERNAL: a mutex that is owned belongs to a stack that is alive. -/
theorem SystemInv.alive (h : SystemInv c) (u : Tid) (o : Obj)
    (hm : (c.sh.stack o).mMut = some u) : c.sh.life o = .alive :=
  (h u).uses o (Pc.uses_of_mayHold ((h u).mayHold o hm))

/-- **Mutual exclusion.** -/
theorem SystemInv.exclusive (h : SystemInv c) (ht : (c.pc t).holds o) (hu : (c.pc u).holds o) :
    t = u :=
  Option.some.inj (((h t).holds o ht).symm.trans ((h u).holds o hu))

variable [DecidableEq Obj] [DecidableEq Tid]

theorem SystemInv.step {e : Tid × Lab Obj T} (h : SystemInv c) (hs : Step SystemStep c e c') :
    SystemInv c' := by
  obtain ⟨hs⟩ := hs
  rename_i t l p' s'
  obtain ⟨hown, hframe⟩ := systemStep_owns (h t) h.alive hs
  intro u
  show Owns s' u (Function.update c.pc t p' u)
  by_cases hu : u = t
  · subst hu
    rw [Function.update_self]
    exact hown
  · rw [Function.update_of_ne hu]
    exact (h u).frame hframe hu

omit [DecidableEq Obj] [DecidableEq Tid] in
theorem systemInv_start (init : Obj → Option (List T)) : SystemInv (start Tid init) := by
  intro t
  refine owns_idle (fun o => by simp [start]) fun o => ?_
  simp only [start]
  split <;> simp

theorem systemInv_run {G : Config Tid (Pc Obj T) (System Obj Tid T) → Tid × Lab Obj T → Prop}
    {init : Obj → Option (List T)} {tr : List (Tid × Lab Obj T)}
    (h : Run SystemStep G (start Tid init) tr c) : SystemInv c :=
  h.invariant SystemInv (systemInv_start init) fun _ _ _ hI _ hs => hI.step hs

end Runs

end UbuntuProjects.TsStackSystem
