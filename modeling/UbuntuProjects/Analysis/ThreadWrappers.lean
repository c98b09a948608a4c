import UbuntuProjects.Concurrency.Custody
import UbuntuProjects.Model.ThreadWrappers

/-!
# Who joins the threads

A thread is in one place from its start on: in the member of one wrapper or, at the end,
among the threads joined. The assignment of `jointhread` joins the thread it overwrites
(jointhread.h:37), that of `thread_guard` does not (thread_guard.h:41), and `std::thread`
ends the process then.
-/

set_option autoImplicit false

namespace UbuntuProjects.ThreadWrappers

open Concurrency

variable {W : Type}

/-- The places of threads: the wrappers, and the threads joined. -/
def State.places (s : State W) : Option W → List ℕ
  | some w => (s.threadOf w).toList
  | none => s.joined

/-- Every thread is in one place and `std::terminate` was not called. -/
structure InCustody (s : State W) : Prop where
  custody : Custody s.places s.started
  alive : s.terminated = false

variable [DecidableEq W]

/-- No assignment targets a `thread_guard` whose thread is joinable. -/
def NoOverwrite (s : State W) : Op W → Prop
  | .assign this _ => ∀ A, s.wrappers this = some A → A.cls = .threadGuard → A.thread = none
  | _ => True

/-- Any call. -/
def anyOp : State W → Op W → Prop := fun _ _ => True

variable {s s' : State W} {w this other : W} {op : Op W}

/-! ## The member of a wrapper -/

/-- INTERNAL: the member that was written. -/
theorem threadOf_setThread_self (hw : (s.wrappers w).isSome) (x : Option ℕ) :
    (s.setThread w x).threadOf w = x := by
  obtain ⟨A, hA⟩ := Option.isSome_iff_exists.mp hw
  unfold State.threadOf State.setThread
  dsimp only
  rw [Function.update_self, hA]
  rfl

/-- INTERNAL: the members of other wrappers stay. -/
theorem threadOf_setThread_of_ne (hne : other ≠ w) (x : Option ℕ) :
    (s.setThread w x).threadOf other = s.threadOf other := by
  unfold State.threadOf State.setThread
  dsimp only
  rw [Function.update_of_ne hne]

/-- INTERNAL: no wrapper comes or goes. -/
theorem isSome_setThread (w v : W) (x : Option ℕ) :
    ((s.setThread w x).wrappers v).isSome = (s.wrappers v).isSome := by
  unfold State.setThread
  dsimp only
  by_cases h : v = w
  · subst h
    rw [Function.update_self, Option.isSome_map]
  · rw [Function.update_of_ne h]

/-! ## What the calls do to the places -/

/-- INTERNAL: `join` takes the thread out of the wrapper. -/
theorem InCustody.checkJoin (h : InCustody s) (hw : (s.wrappers w).isSome) :
    InCustody (s.checkJoin w) ∧ (s.checkJoin w).threadOf w = none ∧
      ∀ v, v ≠ w → (s.checkJoin w).threadOf v = s.threadOf v := by
  unfold State.checkJoin
  cases hx : s.threadOf w with
  | none => exact ⟨h, hx, fun _ _ => rfl⟩
  | some x =>
    dsimp only
    have hself : (s.setThread w none).threadOf w = none := threadOf_setThread_self hw none
    have hother : ∀ v, v ≠ w → (s.setThread w none).threadOf v = s.threadOf v :=
      fun v hv => threadOf_setThread_of_ne hv none
    refine ⟨⟨?_, h.alive⟩, hself, hother⟩
    refine h.custody.handOver (some w) none [x] (by simp) ?_ ?_ ?_
    · show (s.threadOf w).toList.Perm ([x] ++ ((s.setThread w none).threadOf w).toList)
      rw [hx, hself]
      exact List.Perm.refl _
    · show (s.joined ++ [x]).Perm ([x] ++ s.joined)
      exact List.perm_append_comm
    · rintro (_ | v) hv hv'
      · exact absurd rfl hv'
      · have hne : v ≠ w := fun heq => hv (congrArg some heq)
        show ((s.setThread w none).threadOf v).toList = (s.threadOf v).toList
        rw [hother v hne]

/-- INTERNAL: an assignment to a thread that is not joinable hands a thread over. -/
theorem InCustody.assignThread (h : InCustody s) (hthis : (s.wrappers this).isSome)
    (hother : (s.wrappers other).isSome) (hfree : s.threadOf this = none) :
    InCustody (s.assignThread this other) := by
  unfold State.assignThread
  rw [hfree]
  dsimp only
  have hthis' : (((s.setThread other none)).wrappers this).isSome := by
    rw [isSome_setThread]
    exact hthis
  refine ⟨?_, h.alive⟩
  by_cases hne : this = other
  · -- onto itself: nothing is there to be moved
    subst hne
    refine h.custody.congr ?_
    rintro (_ | v)
    · rfl
    · show (((s.setThread this none).setThread this (s.threadOf this)).threadOf v).toList =
        (s.threadOf v).toList
      by_cases hv : v = this
      · subst hv
        rw [threadOf_setThread_self hthis']
      · rw [threadOf_setThread_of_ne hv, threadOf_setThread_of_ne hv]
  · refine h.custody.handOver (some other) (some this) (s.threadOf other).toList
      (by simpa using Ne.symm hne) ?_ ?_ ?_
    · show (s.threadOf other).toList.Perm ((s.threadOf other).toList ++
        (((s.setThread other none).setThread this (s.threadOf other)).threadOf other).toList)
      rw [threadOf_setThread_of_ne (Ne.symm hne), threadOf_setThread_self hother]
      simp
    · show (((s.setThread other none).setThread this (s.threadOf other)).threadOf
        this).toList.Perm ((s.threadOf other).toList ++ (s.threadOf this).toList)
      rw [threadOf_setThread_self hthis', hfree]
      simp
    · rintro (_ | v) hv hv'
      · rfl
      · have hvo : v ≠ other := fun heq => hv (congrArg some heq)
        have hvt : v ≠ this := fun heq => hv' (congrArg some heq)
        show (((s.setThread other none).setThread this (s.threadOf other)).threadOf
          v).toList = (s.threadOf v).toList
        rw [threadOf_setThread_of_ne hvt, threadOf_setThread_of_ne hvo]

/-- INTERNAL: no wrapper comes or goes in a join. -/
theorem isSome_checkJoin (s : State W) (w v : W) :
    ((s.checkJoin w).wrappers v).isSome = (s.wrappers v).isSome := by
  unfold State.checkJoin
  split
  · rfl
  · exact isSome_setThread w v none

/-- INTERNAL: `jointhread` joins the thread that it overwrites. -/
theorem InCustody.assignJointhread (h : InCustody s) (hthis : (s.wrappers this).isSome)
    (hother : (s.wrappers other).isSome) : InCustody (s.assignJointhread this other) := by
  obtain ⟨hjoined, hfree, -⟩ := h.checkJoin hthis
  refine hjoined.assignThread ?_ ?_ hfree
  · rw [isSome_checkJoin]
    exact hthis
  · rw [isSome_checkJoin]
    exact hother

/-- INTERNAL: a new wrapper holds the thread that was started for it. -/
theorem InCustody.construct (h : InCustody s) {cls : Class} {joinable : Bool}
    (hs : s.construct w cls joinable = some s') : InCustody s' := by
  unfold State.construct at hs
  split at hs
  · exact absurd hs (by simp)
  · next hguard =>
    rw [not_or] at hguard
    have hnone : s.threadOf w = none := by
      unfold State.threadOf
      rw [Option.not_isSome_iff_eq_none.mp hguard.1, Option.bind_none]
    obtain rfl := Option.some.inj hs
    -- the other places are as before
    have hrest : ∀ (A : Wrapper) (j : Option W), j ≠ some w →
        State.places ⟨Function.update s.wrappers w (some A),
          if joinable then s.started + 1 else s.started, s.joined, s.terminated⟩ j =
            s.places j := by
      rintro A (_ | v) hv
      · rfl
      · have hne : v ≠ w := fun heq => hv (congrArg some heq)
        unfold State.places State.threadOf
        dsimp only
        rw [Function.update_of_ne hne]
    refine ⟨?_, h.alive⟩
    cases joinable with
    | true =>
      refine h.custody.issue (k := some w) ?_ fun j hj => hrest _ j hj
      unfold State.places State.threadOf at hnone ⊢
      dsimp only
      rw [Function.update_self, hnone]
      exact List.Perm.refl _
    | false =>
      refine h.custody.congr fun j => ?_
      by_cases hj : j = some w
      · subst hj
        unfold State.places State.threadOf at hnone ⊢
        dsimp only
        rw [Function.update_self, hnone]
        rfl
      · exact hrest _ j hj

/-- INTERNAL: a wrapper joins its thread before it is gone. -/
theorem InCustody.destroy (h : InCustody s) (hw : (s.wrappers w).isSome) :
    InCustody (s.destroy w) := by
  obtain ⟨⟨hcustody, halive⟩, hfree, -⟩ := h.checkJoin hw
  refine ⟨hcustody.congr ?_, halive⟩
  rintro (_ | v)
  · rfl
  · show (State.threadOf (s.destroy w) v).toList = ((s.checkJoin w).threadOf v).toList
    by_cases hv : v = w
    · subst hv
      rw [hfree]
      unfold State.threadOf State.destroy
      dsimp only
      rw [Function.update_self]
      rfl
    · unfold State.threadOf State.destroy
      dsimp only
      rw [Function.update_of_ne hv]

/-! ## Whole sequences of calls -/

/-- INTERNAL: a call that overwrites no joinable thread of a `thread_guard` keeps custody. -/
theorem step_inCustody (h : InCustody s) (hG : NoOverwrite s op) (hs : step s op = some s') :
    InCustody s' := by
  unfold step at hs
  rw [h.alive, if_neg Bool.false_ne_true] at hs
  cases op with
  | construct w cls joinable => exact h.construct hs
  | assign this tg =>
    dsimp only at hs
    split at hs
    · next A B hA hB =>
      have hthis : (s.wrappers this).isSome := by rw [hA]; rfl
      have hother : (s.wrappers tg).isSome := by rw [hB]; rfl
      split at hs
      · split at hs
        · next hcls =>
          obtain rfl := Option.some.inj hs
          refine h.assignThread hthis hother ?_
          unfold State.threadOf
          rw [hA]
          exact hG A hA hcls
        · obtain rfl := Option.some.inj hs
          exact h.assignJointhread hthis hother
      · exact absurd hs (by simp)
    · exact absurd hs (by simp)
  | join w =>
    dsimp only at hs
    split at hs
    · next hjoinable =>
      obtain rfl := Option.some.inj hs
      refine (h.checkJoin ?_).1
      unfold State.threadOf at hjoinable
      exact Option.isSome_of_isSome_bind hjoinable
    · exact absurd hs (by simp)
  | destroy w =>
    dsimp only at hs
    split at hs
    · next hw =>
      obtain rfl := Option.some.inj hs
      exact h.destroy hw
    · exact absurd hs (by simp)

omit [DecidableEq W] in
/-- INTERNAL: at the start no thread is anywhere. -/
theorem inCustody_initial : InCustody (State.initial : State W) where
  custody := by
    refine custody_empty ?_
    rintro (_ | w)
    · rfl
    · rfl
  alive := rfl

/-- One more call. -/
theorem Performs.snoc {G : State W → Op W → Prop} {ops : List (Op W)} (h : Performs G ops s)
    (op : Op W) (hG : G s op) (hs : step s op = some s') : Performs G (ops ++ [op]) s' :=
  h.call hG hs

/-- INTERNAL: custody over a whole sequence. -/
theorem performs_inCustody {ops : List (Op W)} (h : Performs NoOverwrite ops s) :
    InCustody s := by
  induction h with
  | nil => exact inCustody_initial
  | call _ hG hs ih => exact step_inCustody ih hG hs

/-- **The threads are joined.** In every sequence of calls in which no assignment targets a
`thread_guard` whose thread is joinable, `std::terminate` is not called, and when no wrapper
is left the threads joined are those started, each of them once.
SRCLINE: thread_guard.h:26-43, jointhread.h:7-46 -/
theorem wrappers_join (ops : List (Op W)) (s : State W) (h : Performs NoOverwrite ops s) :
    s.terminated = false ∧
      ((∀ w, s.wrappers w = none) → s.joined.Perm (List.range s.started)) := by
  obtain ⟨hcustody, halive⟩ := performs_inCustody h
  refine ⟨halive, fun hgone => ?_⟩
  have hempty : ∀ w, s.places (some w) = [] := by
    intro w
    show (s.threadOf w).toList = []
    unfold State.threadOf
    rw [hgone w]
    rfl
  have hnodup : s.joined.Nodup := hcustody.nodup none
  refine (List.perm_ext_iff_of_nodup hnodup List.nodup_range).mpr fun x => ?_
  rw [List.mem_range]
  constructor
  · exact fun hx => hcustody.issued x none hx
  · intro hx
    obtain ⟨k, hk⟩ := hcustody.held x hx
    cases k with
    | none => exact hk.mem
    | some w =>
      have hmem := hk.mem
      rw [hempty w] at hmem
      exact absurd hmem List.not_mem_nil

/-- Only such an assignment calls `std::terminate`. -/
theorem terminated_iff (h : InCustody s) (hs : step s op = some s') :
    s'.terminated = true ↔ ¬NoOverwrite s op := by
  constructor
  · intro hterm hG
    rw [(step_inCustody h hG hs).alive] at hterm
    exact absurd hterm Bool.false_ne_true
  · intro hG
    cases op with
    | construct | join | destroy => exact absurd trivial hG
    | assign this tg =>
      unfold NoOverwrite at hG
      simp only [not_forall] at hG
      obtain ⟨A, hA, hcls, hthread⟩ := hG
      obtain ⟨x, hx⟩ := Option.ne_none_iff_exists'.mp hthread
      have hthreadOf : s.threadOf this = some x := by
        unfold State.threadOf
        rw [hA]
        exact hx
      unfold step at hs
      rw [h.alive, if_neg Bool.false_ne_true] at hs
      dsimp only at hs
      rw [hA] at hs
      cases hB : s.wrappers tg with
      | none =>
        rw [hB] at hs
        exact absurd hs (by simp)
      | some B =>
        rw [hB] at hs
        dsimp only at hs
        split at hs
        · rw [hcls] at hs
          obtain rfl := Option.some.inj hs
          unfold State.assignGuard State.assignThread
          rw [hthreadOf]
        · exact absurd hs (by simp)

/-- A `jointhread` is assigned to another one, and both are destroyed. -/
theorem wrappers_join_two :
    ∃ s : State Bool, Performs NoOverwrite
      [.construct false .jointhread true, .construct true .jointhread true,
        .assign false true, .destroy false, .destroy true] s ∧
      s.joined.Perm (List.range 2) := by
  have h₀ : Performs NoOverwrite [] (State.initial : State Bool) := .nil
  have h₁ := h₀.snoc (.construct false .jointhread true) trivial rfl
  have h₂ := h₁.snoc (.construct true .jointhread true) trivial rfl
  have h₃ := h₂.snoc (.assign false true) (by
    intro A hA hcls
    obtain rfl := Option.some.inj hA
    exact absurd hcls (by decide)) rfl
  have h₄ := h₃.snoc (.destroy false) trivial rfl
  have h₅ := h₄.snoc (.destroy true) trivial rfl
  refine ⟨_, h₅, (wrappers_join _ _ h₅).2 fun w => ?_⟩
  cases w <;> rfl

/-- A `thread_guard` with a running thread is assigned to. -/
theorem guard_terminates :
    ¬∀ (ops : List (Op Bool)) (s : State Bool), Performs anyOp ops s → s.terminated = false := by
  intro hall
  have h₀ : Performs anyOp [] (State.initial : State Bool) := .nil
  have h₁ := h₀.snoc (.construct false .threadGuard true) trivial rfl
  have h₂ := h₁.snoc (.construct true .threadGuard true) trivial rfl
  have h₃ := h₂.snoc (.assign false true) trivial rfl
  exact absurd (hall _ _ h₃) (by decide)

end UbuntuProjects.ThreadWrappers
