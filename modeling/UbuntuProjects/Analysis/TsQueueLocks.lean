import UbuntuProjects.Model.TsQueue

/-!
# Who owns the mutexes of `ts_queue`

A thread owns `m_head_mut` or `m_tail_mut` only at the control points between locking and
unlocking it, its critical sections (`Pc.inHead`, `Pc.inTail`); inside `std::scoped_lock`
it may own any of the listed mutexes. This holds in every configuration of every run
(`locks_run`).
-/

set_option autoImplicit false

namespace UbuntuProjects.TsQueue

open Concurrency

variable {Tid Q T : Type}

/-- The control points inside a critical section of `m_head_mut`. -/
def Pc.inHead : Pc Q T → Q → Prop
  | .testInterrupt q _, q' => q' = q
  | .lockTailMut q _ _, q' => q' = q
  | .readTail q _ _, q' => q' = q
  | .unlockTailMut q _ _ _, q' => q' = q
  | .testEmpty q _ _ _, q' => q' = q
  | .park q _, q' => q' = q
  | .popLoop q _ _ _ _, q' => q' = q
  | .popData q _ _ _ _, q' => q' = q
  | .popNode q _ _ _ _, q' => q' = q
  | .unlockHead q _, q' => q' = q
  | .setStop q, q' => q' = q
  | .unlockStop q, q' => q' = q
  | .acquire c, q' => q' ∈ c.queues
  | .clearing c _, q' => q' ∈ c.queues
  | .testQueue c _, q' => q' ∈ c.queues
  | .moveQueue c, q' => q' ∈ c.queues
  | .release c _, q' => q' ∈ c.queues
  | _, _ => False

/-- The control points inside a critical section of `m_tail_mut`. -/
def Pc.inTail : Pc Q T → Q → Prop
  | .constructData q _ _ _, q' => q' = q
  | .setInitialized q _ _, q' => q' = q
  | .linkNext q _ _, q' => q' = q
  | .moveTail q _ _, q' => q' = q
  | .unlockTail q _, q' => q' = q
  | .readTail q _ _, q' => q' = q
  | .unlockTailMut q _ _ _, q' => q' = q
  | .acquire c, q' => q' ∈ c.queues
  | .clearing c _, q' => q' ∈ c.queues
  | .testQueue c _, q' => q' ∈ c.queues
  | .moveQueue c, q' => q' ∈ c.queues
  | .release c _, q' => q' ∈ c.queues
  | _, _ => False

/-- Every mutex that thread `t` owns is one of a critical section it is in. -/
def OwnsAt (s : Shared Tid Q T) (t : Tid) (p : Pc Q T) : Prop :=
  ∀ q Q', s.queues q = some Q' →
    (Q'.mHeadMut = some t → p.inHead q) ∧ (Q'.mTailMut = some t → p.inTail q)

/-- From `s` to `s'` no thread other than `t` has got a mutex. -/
def NoNewOwner (t : Tid) (s s' : Shared Tid Q T) : Prop :=
  ∀ u, u ≠ t → ∀ q Q₂, s'.queues q = some Q₂ →
    (Q₂.mHeadMut = some u → ∃ Q₁, s.queues q = some Q₁ ∧ Q₁.mHeadMut = some u) ∧
    (Q₂.mTailMut = some u → ∃ Q₁, s.queues q = some Q₁ ∧ Q₁.mTailMut = some u)

section Steps

variable {s s' : Shared Tid Q T} {t : Tid} {q : Q} {Q₁ Q₂ : Queue Tid} {p p' : Pc Q T}

/-- INTERNAL: the queue objects stay as they are. -/
theorem owns_of_same (h : OwnsAt s t p) (hq : s'.queues = s.queues)
    (hhead : ∀ q, p.inHead q → p'.inHead q) (htail : ∀ q, p.inTail q → p'.inTail q) :
    OwnsAt s' t p' ∧ NoNewOwner t s s' := by
  refine ⟨fun q Q' hQ' => ?_, fun u _ q Q₂ hQ₂ => ?_⟩
  · rw [hq] at hQ'
    exact ⟨fun hm => hhead q ((h q Q' hQ').1 hm), fun hm => htail q ((h q Q' hQ').2 hm)⟩
  · rw [hq] at hQ₂
    exact ⟨fun hm => ⟨Q₂, hQ₂, hm⟩, fun hm => ⟨Q₂, hQ₂, hm⟩⟩

/-- INTERNAL: one queue object is written; its mutexes change hands between `t` and
nobody. -/
theorem owns_of_set [DecidableEq Q] (h : OwnsAt s t p) (hQ : s.queues q = some Q₁)
    (hs : s'.queues = Function.update s.queues q (some Q₂))
    (hmh : Q₂.mHeadMut = Q₁.mHeadMut ∧ (p.inHead q → p'.inHead q) ∨
      Q₂.mHeadMut = none ∨ Q₂.mHeadMut = some t ∧ p'.inHead q)
    (hmt : Q₂.mTailMut = Q₁.mTailMut ∧ (p.inTail q → p'.inTail q) ∨
      Q₂.mTailMut = none ∨ Q₂.mTailMut = some t ∧ p'.inTail q)
    (hhead : ∀ q', q' ≠ q → p.inHead q' → p'.inHead q')
    (htail : ∀ q', q' ≠ q → p.inTail q' → p'.inTail q') :
    OwnsAt s' t p' ∧ NoNewOwner t s s' := by
  refine ⟨fun q' Q' hQ' => ?_, fun u hu q' Q' hQ' => ?_⟩
  · by_cases hqq : q' = q
    · subst hqq
      obtain rfl : Q₂ = Q' := by simpa [hs] using hQ'
      constructor
      · intro hm
        rcases hmh with ⟨heq, himp⟩ | hnone | ⟨-, hp'⟩
        · exact himp ((h q' Q₁ hQ).1 (heq ▸ hm))
        · simp [hnone] at hm
        · exact hp'
      · intro hm
        rcases hmt with ⟨heq, himp⟩ | hnone | ⟨-, hp'⟩
        · exact himp ((h q' Q₁ hQ).2 (heq ▸ hm))
        · simp [hnone] at hm
        · exact hp'
    · have hQ'' : s.queues q' = some Q' := by simpa [hs, Function.update_of_ne hqq] using hQ'
      exact ⟨fun hm => hhead q' hqq ((h q' Q' hQ'').1 hm),
        fun hm => htail q' hqq ((h q' Q' hQ'').2 hm)⟩
  · by_cases hqq : q' = q
    · subst hqq
      obtain rfl : Q₂ = Q' := by simpa [hs] using hQ'
      constructor
      · intro hm
        rcases hmh with ⟨heq, -⟩ | hnone | ⟨ht, -⟩
        · exact ⟨Q₁, hQ, heq ▸ hm⟩
        · simp [hnone] at hm
        · exact absurd (by simpa using hm.symm.trans ht) hu
      · intro hm
        rcases hmt with ⟨heq, -⟩ | hnone | ⟨ht, -⟩
        · exact ⟨Q₁, hQ, heq ▸ hm⟩
        · simp [hnone] at hm
        · exact absurd (by simpa using hm.symm.trans ht) hu
    · have hQ'' : s.queues q' = some Q' := by simpa [hs, Function.update_of_ne hqq] using hQ'
      exact ⟨fun hm => ⟨Q', hQ'', hm⟩, fun hm => ⟨Q', hQ'', hm⟩⟩

/-- INTERNAL: a queue object is constructed, with free mutexes. -/
theorem owns_of_new [DecidableEq Q] (h : OwnsAt s t p) (hq : s.queues q = none)
    (hs : s'.queues = Function.update s.queues q (some Q₂)) (hmh : Q₂.mHeadMut = none)
    (hmt : Q₂.mTailMut = none) (hhead : ∀ q', p.inHead q' → p'.inHead q')
    (htail : ∀ q', p.inTail q' → p'.inTail q') : OwnsAt s' t p' ∧ NoNewOwner t s s' := by
  have hcase : ∀ q' Q', s'.queues q' = some Q' →
      s.queues q' = some Q' ∨ Q'.mHeadMut = none ∧ Q'.mTailMut = none := by
    intro q' Q' hQ'
    by_cases hqq : q' = q
    · subst hqq
      obtain rfl : Q₂ = Q' := by simpa [hs] using hQ'
      exact .inr ⟨hmh, hmt⟩
    · exact .inl (by simpa [hs, Function.update_of_ne hqq] using hQ')
  refine ⟨fun q' Q' hQ' => ?_, fun u _ q' Q' hQ' => ?_⟩
  · rcases hcase q' Q' hQ' with hQ'' | ⟨h₁, h₂⟩
    · exact ⟨fun hm => hhead q' ((h q' Q' hQ'').1 hm), fun hm => htail q' ((h q' Q' hQ'').2 hm)⟩
    · simp [h₁, h₂]
  · rcases hcase q' Q' hQ' with hQ'' | ⟨h₁, h₂⟩
    · exact ⟨fun hm => ⟨Q', hQ'', hm⟩, fun hm => ⟨Q', hQ'', hm⟩⟩
    · simp [h₁, h₂]

theorem NoNewOwner.trans {s'' : Shared Tid Q T} (h : NoNewOwner t s s')
    (h' : NoNewOwner t s' s'') : NoNewOwner t s s'' := by
  intro u hu q Q₃ hQ₃
  constructor
  · intro hm
    obtain ⟨Q₂, hQ₂, hm₂⟩ := (h' u hu q Q₃ hQ₃).1 hm
    exact (h u hu q Q₂ hQ₂).1 hm₂
  · intro hm
    obtain ⟨Q₂, hQ₂, hm₂⟩ := (h' u hu q Q₃ hQ₃).2 hm
    exact (h u hu q Q₂ hQ₂).2 hm₂

/-! ### The computed control points -/

@[simp] theorem inHead_afterLockHead (q q' : Q) (k : Take) :
    (afterLockHead q k : Pc Q T).inHead q' ↔ q' = q := by
  unfold afterLockHead
  split <;> rfl

@[simp] theorem inHead_popStart (q q' : Q) (k : Take) (pt : Addr) :
    (popStart q k pt : Pc Q T).inHead q' ↔ q' = q := by
  unfold popStart
  split <;> rfl

@[simp] theorem inHead_afterTest (q q' : Q) (k : Take) (last : Bool) (pt : Addr)
    (Q' : Queue Tid) : (afterTest q k last pt Q' : Pc Q T).inHead q' ↔ q' = q := by
  unfold afterTest
  split <;> repeat' split
  all_goals first | rfl | simp

@[simp] theorem inHead_afterLoopTest (q q' : Q) (k : Take) (pt : Addr) (count : ℤ)
    (out : List T) (Q' : Queue Tid) :
    (afterLoopTest q k pt count out Q').inHead q' ↔ q' = q := by
  unfold afterLoopTest
  split <;> rfl

@[simp] theorem inHead_afterPop (q q' : Q) (k : Take) (pt : Addr) (count : ℤ)
    (out : List T) : (afterPop q k pt count out).inHead q' ↔ q' = q := by
  unfold afterPop
  split <;> rfl

@[simp] theorem inHead_body (c : Section Q) (q' : Q) :
    (c.body : Pc Q T).inHead q' ↔ q' ∈ c.queues := by
  cases c <;> rfl

@[simp] theorem inTail_body (c : Section Q) (q' : Q) :
    (c.body : Pc Q T).inTail q' ↔ q' ∈ c.queues := by
  cases c <;> rfl

@[simp] theorem inHead_afterClear (c : Section Q) (q' : Q) :
    (c.afterClear : Pc Q T).inHead q' ↔ q' ∈ c.queues := by
  cases c <;> rfl

@[simp] theorem inTail_afterClear (c : Section Q) (q' : Q) :
    (c.afterClear : Pc Q T).inTail q' ↔ q' ∈ c.queues := by
  cases c <;> rfl

/-! ### Each kind of step -/

variable [DecidableEq Tid] [DecidableEq Q]

theorem clientStep_owns {l : Lab Q T} (h : OwnsAt s t p) (hs : ClientStep t p s l p' s') :
    OwnsAt s' t p' ∧ NoNewOwner t s s' := by
  cases hs with
  | call op =>
    refine owns_of_same h rfl ?_ ?_ <;> simp [Pc.inHead, Pc.inTail]
  | ret r => exact owns_of_same h rfl (fun _ h => h.elim) (fun _ h => h.elim)
  | create hq ha =>
    exact owns_of_new h hq rfl rfl rfl (fun _ h => h.elim) (fun _ h => h.elim)
  | notifyOne hQ hu =>
    exact owns_of_set h hQ rfl (by simp [Pc.inHead]) (by simp [Pc.inTail])
      (fun _ _ h => h.elim) (fun _ _ h => h.elim)
  | notifyNobody hQ he => exact owns_of_same h rfl (fun _ h => h.elim) (fun _ h => h.elim)
  | notifyAll hQ =>
    exact owns_of_set h hQ rfl (by simp [Pc.inHead]) (by simp [Pc.inTail])
      (fun _ _ h => h.elim) (fun _ _ h => h.elim)
  | lockStop hQ hm =>
    exact owns_of_set h hQ rfl (by simp [Pc.inHead]) (by simp [Pc.inTail])
      (fun _ _ h => h.elim) (fun _ _ h => h.elim)
  | setStop hQ =>
    exact owns_of_set h hQ rfl (by simp [Pc.inHead]) (by simp [Pc.inTail])
      (fun _ _ h => h) (fun _ _ h => h)
  | unlockStop hQ =>
    exact owns_of_set h hQ rfl (by simp [Pc.inHead]) (by simp [Pc.inTail])
      (fun _ hne h => absurd h hne) (fun _ _ h => h)

omit [DecidableEq Tid] in
theorem pushStep_owns (h : OwnsAt s t p) (hs : PushStep t p s p' s') :
    OwnsAt s' t p' ∧ NoNewOwner t s s' := by
  cases hs with
  | makeNode | makeSub | copyRange | copyRangeNil | makeSubNil =>
    exact owns_of_same h rfl (fun _ h => h.elim) (fun _ h => h.elim)
  | constructData | setInitialized | linkNext =>
    exact owns_of_same h rfl (fun _ h => h) (fun _ h => h)
  | lockTail hQ hm =>
    exact owns_of_set h hQ rfl (by simp [Pc.inHead]) (by simp [Pc.inTail])
      (fun _ _ h => h.elim) (fun _ _ h => h.elim)
  | moveTail hQ | moveTailRange hQ =>
    exact owns_of_set h hQ rfl (by simp [Pc.inHead]) (by simp [Pc.inTail])
      (fun _ _ h => h) (fun _ _ h => h)
  | unlockTail hQ =>
    exact owns_of_set h hQ rfl (by simp [Pc.inHead]) (by simp)
      (fun _ _ h => h.elim) (fun _ hne h => absurd h hne)

theorem popStep_owns (h : OwnsAt s t p) (hs : PopStep t p s p' s') :
    OwnsAt s' t p' ∧ NoNewOwner t s s' := by
  cases hs with
  | lockHead hQ hm =>
    exact owns_of_set h hQ rfl (by simp) (by simp [Pc.inTail])
      (fun _ _ h => h.elim) (fun _ _ h => h.elim)
  | testInterrupt hQ =>
    refine owns_of_same h rfl (fun q' hq' => ?_) (fun _ h => h.elim)
    split <;> exact hq'
  | lockTailMut hQ hm =>
    exact owns_of_set h hQ rfl (by simp [Pc.inHead]) (by simp [Pc.inTail])
      (fun _ _ h => h) (fun _ _ h => h.elim)
  | readTail => exact owns_of_same h rfl (fun _ h => h) (fun _ h => h)
  | unlockTailMut hQ =>
    exact owns_of_set h hQ rfl (by simp [Pc.inHead]) (by simp)
      (fun _ _ h => h) (fun _ hne h => absurd h hne)
  | testEmpty hQ =>
    exact owns_of_same h rfl (fun q' hq' => (inHead_afterTest ..).mpr hq') (fun _ h => h.elim)
  | park hQ =>
    exact owns_of_set h hQ rfl (by simp) (by simp [Pc.inTail])
      (fun _ hne h => absurd h hne) (fun _ _ h => h.elim)
  | notified => exact owns_of_same h rfl (fun _ h => h.elim) (fun _ h => h.elim)
  | spurious hQ | timeout hQ =>
    exact owns_of_set h hQ rfl (by simp [Pc.inHead]) (by simp [Pc.inTail])
      (fun _ _ h => h.elim) (fun _ _ h => h.elim)
  | relock hQ hm =>
    exact owns_of_set h hQ rfl (by simp [Pc.inHead]) (by simp [Pc.inTail])
      (fun _ _ h => h.elim) (fun _ _ h => h.elim)
  | popLoop hQ =>
    exact owns_of_same h rfl (fun q' hq' => (inHead_afterLoopTest ..).mpr hq')
      (fun _ h => h.elim)
  | popData => exact owns_of_same h rfl (fun _ h => h) (fun _ h => h.elim)
  | popNode hQ =>
    exact owns_of_set h hQ rfl (by simp) (by simp [Pc.inTail])
      (fun q' _ hq' => (inHead_afterPop ..).mpr hq') (fun _ _ h => h.elim)
  | unlockHead hQ =>
    exact owns_of_set h hQ rfl (by simp) (by simp [Pc.inTail])
      (fun _ hne h => absurd h hne) (fun _ _ h => h.elim)

omit [DecidableEq Tid] in
theorem lockedStep_owns (h : OwnsAt s t p) (hs : LockedStep t p s p' s') :
    OwnsAt s' t p' ∧ NoNewOwner t s s' := by
  cases hs with
  | acquireHead hq hQ hm =>
    exact owns_of_set h hQ rfl (.inr (.inr ⟨rfl, hq⟩)) (.inl ⟨rfl, fun h => h⟩)
      (fun _ _ h => h) (fun _ _ h => h)
  | acquireTail hq hQ hm =>
    exact owns_of_set h hQ rfl (.inl ⟨rfl, fun h => h⟩) (.inr (.inr ⟨rfl, hq⟩))
      (fun _ _ h => h) (fun _ _ h => h)
  | backOffHead hq hQ hm | releaseHead hq hQ hm =>
    exact owns_of_set h hQ rfl (.inr (.inl rfl)) (.inl ⟨rfl, fun h => h⟩)
      (fun _ _ h => h) (fun _ _ h => h)
  | backOffTail hq hQ hm | releaseTail hq hQ hm =>
    exact owns_of_set h hQ rfl (.inl ⟨rfl, fun h => h⟩) (.inr (.inl rfl))
      (fun _ _ h => h) (fun _ _ h => h)
  | enter =>
    exact owns_of_same h rfl (fun q hq => (inHead_body ..).mpr hq)
      (fun q hq => (inTail_body ..).mpr hq)
  | clearNode hQ =>
    exact owns_of_set h hQ rfl (.inl ⟨rfl, fun h => h⟩) (.inl ⟨rfl, fun h => h⟩)
      (fun _ _ h => h) (fun _ _ h => h)
  | cleared =>
    exact owns_of_same h rfl (fun q hq => (inHead_afterClear ..).mpr hq)
      (fun q hq => (inTail_afterClear ..).mpr hq)
  | testQueue => exact owns_of_same h rfl (fun _ h => h) (fun _ h => h)
  | @moveConstruct _ this other O a hthis hO ha =>
    have hne : this ≠ other := by
      rintro rfl
      simp [hthis] at hO
    -- first `other` is written, then `this` appears
    have h₁ : OwnsAt ((s.setNode a .fresh).setQueue other
          { O with mHead := some a, mTail := some a }) t
          (.moveQueue (.moveConstruct this other) : Pc Q T) ∧
        NoNewOwner t s ((s.setNode a .fresh).setQueue other
          { O with mHead := some a, mTail := some a }) :=
      owns_of_set h hO rfl (.inl ⟨rfl, fun h => h⟩) (.inl ⟨rfl, fun h => h⟩)
        (fun _ _ h => h) (fun _ _ h => h)
    have hthis' : ((s.setNode a .fresh).setQueue other
        { O with mHead := some a, mTail := some a }).queues this = none := by
      simpa [Function.update_of_ne hne] using hthis
    exact (owns_of_new h₁.1 hthis' rfl rfl rfl (fun _ h => h) (fun _ h => h)).imp_right h₁.2.trans
  | @moveAssign _ this other D O d a hD hO hd ha =>
    have h₁ : OwnsAt (((s.freeNode d).setNode a .fresh).setQueue other
          { O with mHead := some a, mTail := some a }) t
          (.moveQueue (.moveAssign this other) : Pc Q T) ∧
        NoNewOwner t s (((s.freeNode d).setNode a .fresh).setQueue other
          { O with mHead := some a, mTail := some a }) :=
      owns_of_set h hO rfl (.inl ⟨rfl, fun h => h⟩) (.inl ⟨rfl, fun h => h⟩)
        (fun _ _ h => h) (fun _ _ h => h)
    have hthis : ∃ D', (((s.freeNode d).setNode a .fresh).setQueue other
          { O with mHead := some a, mTail := some a }).queues this = some D' ∧
        D.mHeadMut = D'.mHeadMut ∧ D.mTailMut = D'.mTailMut := by
      by_cases hne : this = other
      · subst hne
        obtain rfl : D = O := by simpa using hD.symm.trans hO
        exact ⟨_, Function.update_self .., rfl, rfl⟩
      · exact ⟨D, by simpa [Function.update_of_ne hne] using hD, rfl, rfl⟩
    obtain ⟨D', hD', hmh, hmt⟩ := hthis
    have h₂ : OwnsAt ((((s.freeNode d).setNode a .fresh).setQueue other
          { O with mHead := some a, mTail := some a }).setQueue this
          { D with mHead := O.mHead, mTail := O.mTail }) t
          (.release (.moveAssign this other) .unit : Pc Q T) ∧
        NoNewOwner t (((s.freeNode d).setNode a .fresh).setQueue other
          { O with mHead := some a, mTail := some a })
          ((((s.freeNode d).setNode a .fresh).setQueue other
          { O with mHead := some a, mTail := some a }).setQueue this
          { D with mHead := O.mHead, mTail := O.mTail }) :=
      owns_of_set h₁.1 hD' rfl (.inl ⟨hmh, fun h => h⟩) (.inl ⟨hmt, fun h => h⟩)
        (fun _ _ h => h) (fun _ _ h => h)
    exact ⟨h₂.1, h₁.2.trans h₂.2⟩
  | released hnone =>
    refine ⟨fun q Q' hQ' => ⟨fun hm => ?_, fun hm => ?_⟩, fun u _ q Q' hQ' =>
      ⟨fun hm => ⟨Q', hQ', hm⟩, fun hm => ⟨Q', hQ', hm⟩⟩⟩
    · exact (hnone q ((h q Q' hQ').1 hm) Q' hQ').1 hm
    · exact (hnone q ((h q Q' hQ').2 hm) Q' hQ').2 hm

theorem queueStep_owns {l : Lab Q T} (h : OwnsAt s t p) (hs : QueueStep t p s l p' s') :
    OwnsAt s' t p' ∧ NoNewOwner t s s' := by
  cases hs with
  | client hs => exact clientStep_owns h hs
  | push hs => exact pushStep_owns h hs
  | pop hs => exact popStep_owns h hs
  | locked hs => exact lockedStep_owns h hs

end Steps

/-- A configuration in which no thread owns a mutex outside its critical sections. -/
def LocksExact (c : Config Tid (Pc Q T) (Shared Tid Q T)) : Prop :=
  ∀ t, OwnsAt c.sh t (c.pc t)

theorem LocksExact.step [DecidableEq Tid] [DecidableEq Q]
    {c c' : Config Tid (Pc Q T) (Shared Tid Q T)} {e : Tid × Lab Q T} (h : LocksExact c)
    (hs : Step QueueStep c e c') : LocksExact c' := by
  cases hs with
  | @mk t _ _ _ hP =>
    obtain ⟨hown, hnew⟩ := queueStep_owns (h t) hP
    intro u
    by_cases hu : u = t
    · subst hu
      simpa using hown
    · intro q Q' hQ'
      simp only [Function.update_of_ne hu]
      constructor
      · intro hm
        obtain ⟨Q₁, hQ₁, hm₁⟩ := (hnew u hu q Q' hQ').1 hm
        exact (h u q Q₁ hQ₁).1 hm₁
      · intro hm
        obtain ⟨Q₁, hQ₁, hm₁⟩ := (hnew u hu q Q' hQ').2 hm
        exact (h u q Q₁ hQ₁).2 hm₁

/-- No run makes a thread own a mutex outside its critical sections. -/
theorem locks_run [DecidableEq Tid] [DecidableEq Q]
    {G : Config Tid (Pc Q T) (Shared Tid Q T) → Tid × Lab Q T → Prop}
    {c₀ c : Config Tid (Pc Q T) (Shared Tid Q T)} {tr : List (Tid × Lab Q T)}
    (h₀ : LocksExact c₀) (h : Run QueueStep G c₀ tr c) : LocksExact c :=
  h.invariant LocksExact h₀ fun _ _ _ hI _ hs => hI.step hs

end UbuntuProjects.TsQueue
