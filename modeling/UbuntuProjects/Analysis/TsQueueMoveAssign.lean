import UbuntuProjects.Concurrency.LockAll
import UbuntuProjects.Analysis.TsQueueRepresentation

/-!
# When a queue can be move-assigned

For two queues the call takes the four mutexes, clears the destination, moves the nodes over
and returns, and both queues are represented then. For a queue and itself the list of mutexes
names both of its mutexes twice.
-/

set_option autoImplicit false

namespace UbuntuProjects.TsQueue

open Concurrency

variable {Tid Q T : Type} [DecidableEq Tid] [DecidableEq Q]

omit [DecidableEq Tid] [DecidableEq Q] in
/-- INTERNAL: the mutexes of a move assignment are distinct when the queues are. -/
theorem nodup_mutexes_iff (this other : Q) :
    (Section.moveAssign this other).mutexes.Nodup ↔ this ≠ other := by
  unfold Section.mutexes Section.queues
  simp

/-- Only thread `t` steps. -/
def alone (t : Tid) : Config Tid (Pc Q T) (Shared Tid Q T) → Tid × Lab Q T → Prop :=
  fun _ e => e.1 = t

/-- The queue object exists and nobody owns its mutexes. -/
def IsFree (s : Shared Tid Q T) (q : Q) : Prop :=
  ∃ Q', s.queues q = some Q' ∧ Q'.mHeadMut = none ∧ Q'.mTailMut = none

/-- What the move assignment that thread `t` has just entered is to do: it locks its mutexes
safely, it returns, and when it has returned both queues are represented. -/
structure MoveAssignTolerates (c : Config Tid (Pc Q T) (Shared Tid Q T)) (t : Tid)
    (this other : Q) : Prop where
  locksSafely : ∀ attempts todo held,
    LockRun (Section.moveAssign this other).mutexes attempts todo held → NeverOwned attempts
  returns : ∃ tr c', Run QueueStep (alone t) c tr c' ∧ c'.pc t = .returning .unit
  represents : ∀ tr c', Run QueueStep (alone t) c tr c' → c'.pc t = .returning .unit →
    ∀ q ∈ [this, other], ∃ Q', c'.sh.queues q = some Q' ∧ IsRepresented c'.sh Q'

variable {c : Config Tid (Pc Q T) (Shared Tid Q T)} {t : Tid} {this other : Q}
  {s s' : Shared Tid Q T} {D O : Queue Tid}

/-! ## The call returns -/

/-- Thread `t`, stepping alone, has come to the control point `p` in the state `s`. -/
def Gets (c : Config Tid (Pc Q T) (Shared Tid Q T)) (t : Tid) (p : Pc Q T)
    (s : Shared Tid Q T) : Prop :=
  ∃ tr c', Run QueueStep (alone t) c tr c' ∧ c'.pc t = p ∧ c'.sh = s

/-- INTERNAL: one more step under the locks. -/
theorem Gets.step {p p' : Pc Q T} (h : Gets c t p s) (hs : LockedStep t p s p' s') :
    Gets c t p' s' := by
  obtain ⟨tr, c', hr, rfl, rfl⟩ := h
  exact ⟨_, _, hr.snoc t rfl (.locked hs), Function.update_self .., rfl⟩

/-- INTERNAL: both mutexes of a queue are acquired. -/
theorem Gets.acquire {m : Section Q} {q : Q} (h : Gets c t (.acquire m) s) (hq : q ∈ m.queues)
    (hQ : s.queues q = some D) (hhead : D.mHeadMut = none) (htail : D.mTailMut = none) :
    ∃ s', Gets c t (.acquire m) s' ∧ s'.heap = s.heap ∧ s'.queues =
      Function.update s.queues q (some { D with mHeadMut := some t, mTailMut := some t }) := by
  have h₁ := h.step (.acquireHead hq hQ hhead)
  have h₂ := h₁.step (.acquireTail hq (Shared.setQueue_self ..) htail)
  refine ⟨_, h₂, rfl, ?_⟩
  show Function.update (Function.update _ _ _) _ _ = _
  rw [Function.update_idem]

/-- INTERNAL: both mutexes of a queue are released. -/
theorem Gets.release {m : Section Q} {r : Res T} {q : Q} (h : Gets c t (.release m r) s)
    (hq : q ∈ m.queues) (hQ : s.queues q = some D) (hhead : D.mHeadMut = some t)
    (htail : D.mTailMut = some t) :
    ∃ s', Gets c t (.release m r) s' ∧ s'.queues =
      Function.update s.queues q (some { D with mHeadMut := none, mTailMut := none }) := by
  have h₁ := h.step (.releaseHead hq hQ hhead)
  have h₂ := h₁.step (.releaseTail hq (Shared.setQueue_self ..) htail)
  refine ⟨_, h₂, ?_⟩
  show Function.update (Function.update _ _ _) _ _ = _
  rw [Function.update_idem]

/-- INTERNAL: the loop of `clear_unprotected` ends. -/
theorem Gets.clear {m : Section Q} {hd tl : Addr} {xs : List Addr}
    (h : Gets c t (.clearing m this) s) (hD : s.queues this = some D)
    (hhd : D.mHead = some hd) (htl : D.mTail = some tl)
    (hpath : Path (nextOf s.heap) hd xs tl) (hnodup : (xs ++ [tl]).Nodup) :
    ∃ s', Gets c t (.clearing m this) s' ∧
      s'.queues = Function.update s.queues this (some { D with mHead := some tl }) := by
  induction xs generalizing s D hd with
  | nil =>
    obtain rfl : hd = tl := Path.nil_iff.mp hpath
    refine ⟨s, h, ?_⟩
    rw [← hhd]
    exact (Function.update_eq_self_iff.mpr hD.symm).symm
  | cons x xs ih =>
    obtain ⟨rfl, b, hnext, hrest⟩ := Path.cons_iff.mp hpath
    obtain ⟨nd, hnd, hlink⟩ := Option.bind_eq_some_iff.mp hnext
    have hfresh : x ∉ xs ++ [tl] := (List.nodup_cons.mp hnodup).1
    have hne : D.mHead ≠ D.mTail := by
      rw [hhd, htl]
      intro heq
      exact hfresh (List.mem_append_right _ (by simpa using heq))
    have hstep := h.step (.clearNode hD hne hhd hnd)
    have hpath' : Path (nextOf (s.freeNode x).heap) b xs tl := by
      refine hrest.congr fun y hy => nextOf_congr ?_
      refine Function.update_of_ne ?_ _ _
      rintro rfl
      exact hfresh (List.mem_append_left _ hy)
    obtain ⟨s', hs', hqueues⟩ := ih hstep (Shared.setQueue_self ..) hlink htl hpath'
      (List.nodup_cons.mp hnodup).2
    refine ⟨s', hs', ?_⟩
    rw [hqueues]
    exact Function.update_idem ..

/-- INTERNAL: the body of the move assignment under the locks, from the loop to the release.
The new dummy node gets the address of the node that is deleted. -/
theorem Gets.moveAssign {hd tl : Addr} {xs : List Addr} (hne : this ≠ other)
    (h : Gets c t (.clearing (.moveAssign this other) this) s) (hD : s.queues this = some D)
    (hO : s.queues other = some O) (hhd : D.mHead = some hd) (htl : D.mTail = some tl)
    (hpath : Path (nextOf s.heap) hd xs tl) (hnodup : (xs ++ [tl]).Nodup) :
    ∃ s' O', Gets c t (.release (.moveAssign this other) .unit) s' ∧
      s'.queues this = some { D with mHead := O.mHead, mTail := O.mTail } ∧
      s'.queues other = some O' ∧ O'.mHeadMut = O.mHeadMut ∧ O'.mTailMut = O.mTailMut := by
  obtain ⟨s₁, h₁, hqueues⟩ := h.clear hD hhd htl hpath hnodup
  have hD₁ : s₁.queues this = some { D with mHead := some tl } := by
    rw [hqueues]
    exact Function.update_self ..
  have hO₁ : s₁.queues other = some O := by
    rw [hqueues, Function.update_of_ne (Ne.symm hne)]
    exact hO
  have h₂ := h₁.step (.cleared hD₁ htl.symm)
  have hfree : (s₁.freeNode tl).heap tl = none := Function.update_self ..
  have h₃ := h₂.step (.moveAssign hD₁ hO₁ rfl hfree)
  refine ⟨_, { O with mHead := some tl, mTail := some tl }, h₃, Shared.setQueue_self .., ?_,
    rfl, rfl⟩
  exact (Function.update_of_ne (Ne.symm hne) ..).trans (Shared.setQueue_self ..)

/-- INTERNAL: the call for two queues whose mutexes are free returns. -/
theorem moveAssign_returns (hne : this ≠ other) {own : Owners Tid Q}
    (hI : SharedInv own c.sh) (hpc : c.pc t = .acquire (.moveAssign this other))
    (hthis : IsFree c.sh this) (hother : IsFree c.sh other) :
    ∃ s, Gets c t (.returning .unit) s := by
  obtain ⟨D, hD, hDhead, hDtail⟩ := hthis
  obtain ⟨O, hO, hOhead, hOtail⟩ := hother
  obtain ⟨hd, tl, xs, hrep⟩ := hI.rep this D hD
  have hthis : this ∈ (Section.moveAssign this other).queues := List.mem_cons_self
  have hother : other ∈ (Section.moveAssign this other).queues :=
    List.mem_cons_of_mem _ (List.mem_singleton_self _)
  have h₀ : Gets c t (.acquire (.moveAssign this other)) c.sh := ⟨[], c, .nil, hpc, rfl⟩
  -- the four mutexes
  obtain ⟨s₁, h₁, hheap₁, hqueues₁⟩ := h₀.acquire hthis hD hDhead hDtail
  have hO₁ : s₁.queues other = some O := by
    rw [hqueues₁, Function.update_of_ne (Ne.symm hne)]
    exact hO
  obtain ⟨s₂, h₂, hheap₂, hqueues₂⟩ := h₁.acquire hother hO₁ hOhead hOtail
  have hD₂ : s₂.queues this = some { D with mHeadMut := some t, mTailMut := some t } := by
    rw [hqueues₂, Function.update_of_ne hne, hqueues₁]
    exact Function.update_self ..
  have hO₂ : s₂.queues other = some { O with mHeadMut := some t, mTailMut := some t } := by
    rw [hqueues₂]
    exact Function.update_self ..
  have hall : OwnsAll t (.moveAssign this other) s₂ := by
    refine ⟨by simpa [Section.queues] using hne, fun q hq => ?_⟩
    rcases List.mem_pair.mp hq with rfl | rfl
    · exact ⟨_, hD₂, rfl, rfl⟩
    · exact ⟨_, hO₂, rfl, rfl⟩
  have h₃ := h₂.step (.enter hall)
  -- the body
  have hpath : Path (nextOf s₂.heap) hd xs tl := by
    rw [hheap₂, hheap₁]
    exact hrep.path
  obtain ⟨s₄, O', h₄, hD₄, hO₄, hOhead₄, hOtail₄⟩ := Gets.moveAssign hne h₃ hD₂ hO₂
    hrep.head hrep.tail hpath hrep.nodup
  -- the releases
  obtain ⟨s₅, h₅, hqueues₅⟩ := h₄.release hthis hD₄ rfl rfl
  have hO₅ : s₅.queues other = some O' := by
    rw [hqueues₅, Function.update_of_ne (Ne.symm hne)]
    exact hO₄
  obtain ⟨s₆, h₆, hqueues₆⟩ := h₅.release hother hO₅ hOhead₄ hOtail₄
  have hnone : OwnsNone t (.moveAssign this other) s₆ := by
    intro q hq Q' hQ'
    rw [hqueues₆, hqueues₅] at hQ'
    rcases List.mem_pair.mp hq with rfl | rfl
    · rw [Function.update_of_ne hne, Function.update_self] at hQ'
      obtain rfl := Option.some.inj hQ'
      exact ⟨by simp, by simp⟩
    · rw [Function.update_self] at hQ'
      obtain rfl := Option.some.inj hQ'
      exact ⟨by simp, by simp⟩
  exact ⟨_, h₆.step (.released hnone)⟩

/-! ## The queues behind it -/

/-- INTERNAL: while thread `t` steps alone, nobody else gets a mutex of a queue. -/
theorem alone_owners {q : Q} (hl : LocksExact c) (hfree : IsFree c.sh q)
    {tr : List (Tid × Lab Q T)} {c' : Config Tid (Pc Q T) (Shared Tid Q T)}
    (h : Run QueueStep (alone t) c tr c') :
    ∃ Q', c'.sh.queues q = some Q' ∧ ∀ u, u ≠ t → Q'.mTailMut ≠ some u := by
  have hkept : LocksExact c' ∧ (c'.sh.queues q).isSome ∧ ∀ u, u ≠ t → ∀ Q',
      c'.sh.queues q = some Q' → Q'.mTailMut ≠ some u := by
    apply h.invariant (fun c' => LocksExact c' ∧ (c'.sh.queues q).isSome ∧ ∀ u, u ≠ t →
      ∀ Q', c'.sh.queues q = some Q' → Q'.mTailMut ≠ some u)
    · obtain ⟨Q₀, hQ₀, -, htail⟩ := hfree
      refine ⟨hl, by rw [hQ₀]; rfl, fun u _ Q' hQ' => ?_⟩
      rw [hQ₀] at hQ'
      obtain rfl := Option.some.inj hQ'
      rw [htail]
      simp
    · rintro c₁ e c₂ ⟨hl₁, hsome, hothers⟩ hG hs
      have hl₂ := hl₁.step hs
      obtain ⟨hP⟩ := hs
      rename_i t' l p' s'
      obtain rfl : t' = t := hG
      obtain ⟨-, hnew⟩ := queueStep_owns (hl₁ t') hP
      refine ⟨hl₂, queueStep_isSome hP q hsome, fun u hu Q' hQ' hm => ?_⟩
      obtain ⟨Q₁, hQ₁, hm₁⟩ := (hnew u hu q Q' hQ').2 hm
      exact hothers u hu Q₁ hQ₁ hm₁
  obtain ⟨-, hsome, hothers⟩ := hkept
  obtain ⟨Q', hQ'⟩ := Option.isSome_iff_exists.mp hsome
  exact ⟨Q', hQ', fun u hu => hothers u hu Q' hQ'⟩

omit [DecidableEq Tid] [DecidableEq Q] in
/-- INTERNAL: a queue with a free `m_tail_mut` is represented. -/
theorem SharedInv.isRepresented {own : Owners Tid Q} (hI : SharedInv own s) {q : Q}
    (hQ : s.queues q = some D) (hfree : D.mTailMut = none) : IsRepresented s D := by
  obtain ⟨hd, tl, xs, hrep⟩ := hI.rep q D hQ
  have hfresh := hI.quiet q D tl hQ hfree hrep.tail
  exact ⟨hd, tl, xs, .fresh, hrep.head, hrep.tail, hrep.path, hrep.nodup, hfresh, rfl, rfl,
    fun a ha => (hrep.filled a ha).isInitialized⟩

/-- INTERNAL: when the call has returned the queues are represented. -/
theorem moveAssign_represents {tr₀ tr : List (Tid × Lab Q T)}
    {c' : Config Tid (Pc Q T) (Shared Tid Q T)}
    (h₀ : Run QueueStep anyStep (noQueues Tid Q T) tr₀ c) {q : Q} (hfree : IsFree c.sh q)
    (h : Run QueueStep (alone t) c tr c') (hret : c'.pc t = .returning .unit) :
    ∃ Q', c'.sh.queues q = some Q' ∧ IsRepresented c'.sh Q' := by
  have hreach := h₀.trans h.any
  obtain ⟨own, hI, -⟩ := outline_run outline_noQueues locksExact_noQueues hreach
  obtain ⟨Q', hQ', hothers⟩ := alone_owners (locks_run locksExact_noQueues h₀) hfree h
  have htail : Q'.mTailMut = none := by
    cases hm : Q'.mTailMut with
    | none => rfl
    | some u =>
      by_cases hu : u = t
      · subst hu
        have hin := (locks_run locksExact_noQueues hreach u q Q' hQ').2 hm
        rw [hret] at hin
        exact False.elim hin
      · exact absurd hm (hothers u hu)
  exact ⟨Q', hQ', SharedInv.isRepresented hI hQ' htail⟩

/-- **Move assignment is tolerated for two queues** and for no queue and itself. -/
theorem moveAssignTolerates_iff {tr : List (Tid × Lab Q T)}
    (h : Run QueueStep anyStep (noQueues Tid Q T) tr c)
    (hpc : c.pc t = .acquire (.moveAssign this other))
    (hthis : IsFree c.sh this) (hother : IsFree c.sh other) :
    MoveAssignTolerates c t this other ↔ this ≠ other := by
  constructor
  · intro htol
    exact (nodup_mutexes_iff this other).mp ((neverOwned_iff_nodup _).mp htol.locksSafely)
  · intro hne
    obtain ⟨own, hI, -⟩ := outline_run outline_noQueues locksExact_noQueues h
    refine ⟨(neverOwned_iff_nodup _).mpr ((nodup_mutexes_iff this other).mpr hne), ?_, ?_⟩
    · obtain ⟨s, tr', c', hr, hret, -⟩ := moveAssign_returns hne hI hpc hthis hother
      exact ⟨tr', c', hr, hret⟩
    · intro tr' c' hr hret q hq
      rcases List.mem_pair.mp hq with rfl | rfl
      · exact moveAssign_represents h hthis hr hret
      · exact moveAssign_represents h hother hr hret

end UbuntuProjects.TsQueue
