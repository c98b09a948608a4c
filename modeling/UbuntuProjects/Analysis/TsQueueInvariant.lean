import UbuntuProjects.Analysis.TsQueueEffects
import UbuntuProjects.Analysis.TsQueueLocks

/-!
# The proof outline holds in every run of `ts_queue`

Each step pays what it owes to the outline (`queueStep_guarantee`), so the outline holds
in every configuration of every run from the start (`outline_run`), whatever the threads
call.
-/

set_option autoImplicit false

namespace UbuntuProjects.TsQueue

open Concurrency

variable {Tid Q T : Type} [DecidableEq Q] {own : Owners Tid Q}
  {s s' : Shared Tid Q T} {t : Tid} {q : Q} {Q₁ Q₂ : Queue Tid} {p p' : Pc Q T}

/-! ## Locks -/

/-- INTERNAL: a step that acquires or releases `m_head_mut`, or touches the condition
variable or the interrupt flag. -/
theorem guarantee_of_sync (hQ : s.queues q = some Q₁) (hhd : Q₂.mHead = Q₁.mHead)
    (htl : Q₂.mTail = Q₁.mTail) (hmt : Q₂.mTailMut = Q₁.mTailMut)
    (hp : ∀ own, SharedInv own s → assertion own t p s →
      (∀ u, u ≠ t → Q₁.mHeadMut = some u → Q₂.mHeadMut = some u) ∧
        assertion own t p' (s.setQueue q Q₂)) :
    Guarantee t p s p' (s.setQueue q Q₂) :=
  fun own hI h =>
    ⟨own, sync_effect hI hQ hhd htl (hp own hI h).1 (fun u _ => by rw [hmt])
      (fun hm tl htl' => hI.quiet q Q₁ tl hQ (hmt ▸ hm) htl'), (hp own hI h).2⟩

/-- INTERNAL: a step that acquires the free `m_tail_mut`. -/
theorem guarantee_of_lockTail (hQ : s.queues q = some Q₁) (hfree : Q₁.mTailMut = none)
    (hp : ∀ own, SharedInv own s → assertion own t p s →
      (∀ tl, Q₁.mTail = some tl → s.heap tl = some .fresh) →
      assertion own t p' (s.setQueue q { Q₁ with mTailMut := some t })) :
    Guarantee t p s p' (s.setQueue q { Q₁ with mTailMut := some t }) :=
  fun own hI h =>
    ⟨own, sync_effect hI hQ rfl rfl (fun _ _ h => h)
      (fun u hu => by simp [hfree, Ne.symm hu]) (by simp),
      hp own hI h fun tl htl => hI.quiet q Q₁ tl hQ hfree htl⟩

/-- INTERNAL: a step that releases `m_tail_mut` while the last node is fresh. -/
theorem guarantee_of_unlockTail (hQ : s.queues q = some Q₁)
    (hp : ∀ own, SharedInv own s → assertion own t p s →
      Q₁.mTailMut = some t ∧ (∀ tl, Q₁.mTail = some tl → s.heap tl = some .fresh) ∧
        assertion own t p' (s.setQueue q { Q₁ with mTailMut := none })) :
    Guarantee t p s p' (s.setQueue q { Q₁ with mTailMut := none }) :=
  fun own hI h => by
    obtain ⟨hm, hf, hp'⟩ := hp own hI h
    exact ⟨own, sync_effect hI hQ rfl rfl (fun _ _ h => h)
      (fun u hu => by simp [hm, Ne.symm hu]) (fun _ => hf), hp'⟩

omit [DecidableEq Q] in
/-- INTERNAL: the owner of `m_tail_mut` knows the last node. -/
theorem TailNode.of_queue {nd : Node T} (h : TailNode s t q nd) (hQ : s.queues q = some Q₁) :
    Q₁.mTailMut = some t ∧ ∀ tl, Q₁.mTail = some tl → s.heap tl = some nd := by
  obtain ⟨Q', tl, hQ', hm, htl, hnd⟩ := h
  obtain rfl : Q₁ = Q' := by simpa using hQ.symm.trans hQ'
  refine ⟨hm, fun tl' htl' => ?_⟩
  obtain rfl : tl = tl' := by simpa using htl.symm.trans htl'
  exact hnd

omit [DecidableEq Q] in
theorem TailNode.freshIfHeld (h : TailNode s t q .fresh) : FreshIfHeld s t q :=
  fun _ tl hQ _ htl => (h.of_queue hQ).2 tl htl

omit [DecidableEq Q] in
theorem HoldsHead.of_queue (h : HoldsHead s t q) (hQ : s.queues q = some Q₁) :
    Q₁.mHeadMut = some t := by
  obtain ⟨Q', hQ', hm⟩ := h
  obtain rfl : Q₁ = Q' := by simpa using hQ.symm.trans hQ'
  exact hm

omit [DecidableEq Q] in
/-- INTERNAL: only `t` can be deprived of a mutex that `t` owns. -/
theorem HoldsHead.release (h : HoldsHead s t q) (hQ : s.queues q = some Q₁) (u : Tid)
    (hu : u ≠ t) (hm : Q₁.mHeadMut = some u) (m : Option Tid) : m = some u :=
  absurd (by simpa using hm.symm.trans (h.of_queue hQ)) hu

/-- INTERNAL: what the owner of `m_tail_mut` knows survives a change to other members or
to another queue. -/
theorem TailNode.setQueue {nd : Node T} {q' : Q} (h : TailNode s t q' nd)
    (hQ : s.queues q = some Q₁) (htl : Q₂.mTail = Q₁.mTail)
    (hm : Q₁.mTailMut = some t → Q₂.mTailMut = some t) :
    TailNode (s.setQueue q Q₂) t q' nd := by
  obtain ⟨Q', tl, hQ', hm', htl', hnd⟩ := h
  by_cases hq : q' = q
  · subst hq
    obtain rfl : Q₁ = Q' := by simpa using hQ.symm.trans hQ'
    exact ⟨Q₂, tl, by simp, hm hm', htl.trans htl', hnd⟩
  · exact ⟨Q', tl, by simpa [Function.update_of_ne hq] using hQ', hm', htl', hnd⟩

theorem HoldsHead.setQueue {q' : Q} (h : HoldsHead s t q') (hQ : s.queues q = some Q₁)
    (hm : Q₁.mHeadMut = some t → Q₂.mHeadMut = some t) : HoldsHead (s.setQueue q Q₂) t q' := by
  obtain ⟨Q', hQ', hm'⟩ := h
  by_cases hq : q' = q
  · subst hq
    obtain rfl : Q₁ = Q' := by simpa using hQ.symm.trans hQ'
    exact ⟨Q₂, by simp, hm hm'⟩
  · exact ⟨Q', by simpa [Function.update_of_ne hq] using hQ', hm'⟩

theorem FreshIfHeld.setQueue {q' : Q} (h : FreshIfHeld s t q') (hQ : s.queues q = some Q₁)
    (htl : Q₂.mTail = Q₁.mTail)
    (hm : Q₂.mTailMut = some t → Q₁.mTailMut = some t ∨
      ∀ tl, Q₁.mTail = some tl → s.heap tl = some .fresh) :
    FreshIfHeld (s.setQueue q Q₂) t q' := by
  intro Q' tl hQ' hm' htl'
  by_cases hq : q' = q
  · subst hq
    obtain rfl : Q₂ = Q' := by simpa using hQ'
    rcases hm hm' with hm | hf
    · exact h Q₁ tl hQ hm (htl.symm.trans htl')
    · exact hf tl (htl.symm.trans htl')
  · exact h Q' tl (by simpa [Function.update_of_ne hq] using hQ') hm' htl'

/-- INTERNAL: what a popper knows about the tail it has read does not depend on
`m_tail_mut`. -/
theorem IsAhead.setQueue {pt : Addr} (h : IsAhead own s t q pt) (hQ : s.queues q = some Q₁)
    (hhd : Q₂.mHead = Q₁.mHead) (htl : Q₂.mTail = Q₁.mTail)
    (hm : Q₂.mHeadMut = Q₁.mHeadMut) : IsAhead own (s.setQueue q Q₂) t q pt := by
  obtain ⟨Q', hd, tl, front, ha⟩ := h
  obtain rfl : Q₁ = Q' := by simpa using hQ.symm.trans ha.queue
  exact ⟨Q₂, hd, tl, front, by simp, hm.trans ha.held, hhd.trans ha.head, htl.trans ha.tail,
    ha.path, ha.nodup, ha.owned, ha.filled, ha.behind⟩

/-! ## Clients -/

omit [DecidableEq Q] in
/-- INTERNAL: nothing has to be known where an operation starts. -/
theorem assertion_entry (own : Owners Tid Q) (h : OwnsAt s t (.idle : Pc Q T)) (op : Op Q T) :
    assertion own t op.entry s := by
  cases op with
  | locked c => exact fun q _ Q' _ hQ' hm _ => ((h q Q' hQ').2 hm).elim
  | _ => trivial

omit [DecidableEq Q] in
theorem assertion_afterPush (own : Owners Tid Q) (q : Q) (n : Notify) :
    assertion own t (afterPush q n) s := by
  cases n <;> trivial

theorem clientStep_guarantee [DecidableEq Tid] {l : Lab Q T} (hown : OwnsAt s t p)
    (h : ClientStep t p s l p' s') : Guarantee t p s p' s' := by
  cases h with
  | call s op => exact guarantee_of_local fun own _ _ => assertion_entry own hown op
  | ret => exact guarantee_of_local fun _ _ _ => trivial
  | create hq ha =>
    exact fun own hI _ => ⟨_, create_effect hI hq ha, trivial⟩
  | notifyOne hQ hu => exact guarantee_of_sync hQ rfl rfl rfl fun _ _ _ => ⟨fun _ _ h => h, trivial⟩
  | notifyNobody hQ he => exact guarantee_of_local fun _ _ _ => trivial
  | notifyAll hQ => exact guarantee_of_sync hQ rfl rfl rfl fun _ _ _ => ⟨fun _ _ h => h, trivial⟩
  | lockStop hQ hm =>
    exact guarantee_of_sync hQ rfl rfl rfl fun _ _ _ =>
      ⟨fun _ _ h => by simp [hm] at h, ⟨_, Function.update_self .., rfl⟩⟩
  | setStop hQ =>
    exact guarantee_of_sync hQ rfl rfl rfl fun _ _ h =>
      ⟨fun _ _ h => h, HoldsHead.setQueue h hQ fun h => h⟩
  | unlockStop hQ =>
    exact guarantee_of_sync hQ rfl rfl rfl fun _ _ h =>
      ⟨fun u hu hm => HoldsHead.release h hQ u hu hm _, trivial⟩

/-! ## Pushers -/

omit [DecidableEq Q] in
/-- INTERNAL: a node just allocated is a chain of its own. -/
theorem SubRep.single {heap : Addr → Option (Node T)} {a : Addr}
    (hown : own a = some (.thread t)) (ha : heap a = some .fresh) :
    SubRep own heap t a a [] where
  path := .nil a
  nodup := by simp
  owned := by simpa using hown
  filled := by simp
  fresh := ha

omit [DecidableEq Q] in
/-- INTERNAL: a private chain does not depend on other nodes. -/
theorem SubRep.frame {own' : Owners Tid Q} {heap heap' : Addr → Option (Node T)}
    {first last : Addr} {ys : List Addr} (h : SubRep own heap t first last ys)
    (hown : ∀ a, own a = some (.thread t) → own' a = some (.thread t))
    (hheap : ∀ a, own a = some (.thread t) → heap' a = heap a) :
    SubRep own' heap' t first last ys where
  path := h.path.congr fun a ha => nextOf_congr (hheap a (h.owned a (by simp [ha])))
  nodup := h.nodup
  owned a ha := hown a (h.owned a ha)
  filled a ha := (h.filled a ha).congr (hheap a (h.owned a (by simp [ha])))
  fresh := (hheap last (h.owned last (by simp))).trans h.fresh

omit [DecidableEq Q] in
/-- INTERNAL: the loop of `push_range` fills the last private node and links a new one. -/
theorem SubRep.grow {heap : Addr → Option (Node T)} {first last a : Addr} {x : T}
    {ys : List Addr} (h : SubRep own heap t first last ys) (hown : own a = none) :
    SubRep (Function.update own a (some (.thread t)))
      (Function.update (Function.update heap last (some ⟨some x, some a, true⟩)) a
        (some .fresh)) t first a (ys ++ [last]) := by
  have hne : ∀ b ∈ ys ++ [last], b ≠ a := by
    rintro b hb rfl
    have := h.owned b hb
    simp [hown] at this
  have hlast : last ∉ ys := fun hm => (List.nodup_append.mp h.nodup).2.2 last hm last (by simp) rfl
  have hheap : ∀ b ∈ ys, Function.update (Function.update heap last (some ⟨some x, some a, true⟩))
      a (some .fresh) b = heap b := by
    intro b hb
    rw [Function.update_of_ne (hne b (by simp [hb])), Function.update_of_ne]
    rintro rfl
    exact hlast hb
  have hlastNode : Function.update (Function.update heap last (some ⟨some x, some a, true⟩))
      a (some .fresh) last = some ⟨some x, some a, true⟩ := by
    rw [Function.update_of_ne (hne last (by simp)), Function.update_self]
  refine ⟨?_, ?_, fun b hb => ?_, fun b hb => ?_, by simp⟩
  · exact (h.path.congr fun b hb => nextOf_congr (hheap b hb)).snoc (by simp [nextOf, hlastNode])
  · rw [List.nodup_append]
    refine ⟨h.nodup, by simp, fun b hb c hc => ?_⟩
    obtain rfl : c = a := by simpa using hc
    exact hne b hb
  · rcases List.mem_append.mp hb with hb | hb
    · rw [Function.update_of_ne (hne b hb)]
      exact h.owned b hb
    · obtain rfl : b = a := by simpa using hb
      simp
  · rcases List.mem_append.mp hb with hb | hb
    · exact (h.filled b hb).congr (hheap b hb)
    · obtain rfl : b = last := by simpa using hb
      exact ⟨_, x, hlastNode, rfl, rfl⟩

omit [DecidableEq Q] in
/-- INTERNAL: allocating a node makes a chain of one node. -/
theorem alloc_effect (hI : SharedInv own s) {a : Addr} (ha : s.heap a = none) :
    Admissible own (Function.update own a (some (.thread t))) t s (s.setNode a .fresh) ∧
      SubRep (Function.update own a (some (.thread t))) (s.setNode a .fresh).heap t a a [] := by
  refine ⟨private_effect hI ha rfl (fun b hb _ => Function.update_of_ne hb _ _) fun b hb => ?_,
    .single (Function.update_self ..) (Function.update_self ..)⟩
  by_cases hba : b = a
  · simp [hba]
  · simpa [Function.update_of_ne hba] using hI.live b _ (hb.resolve_left hba)

omit [DecidableEq Q] in
/-- INTERNAL: a pusher writes the last node of the queue; its own nodes stay. -/
theorem tailWrite_step {nd nd' : Node T} {tl first last : Addr} {ys : List Addr}
    (hI : SharedInv own s) (hQ : s.queues q = some Q₁) (htl : Q₁.mTail = some tl)
    (htail : TailNode s t q nd) (hsub : SubRep own s.heap t first last ys) :
    Admissible own own t s (s.setNode tl nd') ∧ TailNode (s.setNode tl nd') t q nd' ∧
      SubRep own (s.setNode tl nd').heap t first last ys := by
  obtain ⟨hm, -⟩ := htail.of_queue hQ
  have htlq := hI.owned_tail hQ htl
  refine ⟨tailWrite_effect hI hQ hm htl nd', ⟨Q₁, tl, hQ, hm, htl, by simp⟩,
    hsub.frame (fun _ h => h) fun a ha => Function.update_of_ne ?_ _ _⟩
  rintro rfl
  simp [htlq] at ha

theorem pushStep_guarantee [DecidableEq Tid] (h : PushStep t p s p' s') :
    Guarantee t p s p' s' := by
  cases h with
  | makeNode ha =>
    exact fun own hI _ =>
      have h := alloc_effect (t := t) hI ha
      ⟨_, h.1, [], h.2⟩
  | makeSubNil => exact guarantee_of_local fun own _ _ => assertion_afterPush own _ _
  | makeSub ha =>
    exact fun own hI _ =>
      have h := alloc_effect (t := t) hI ha
      ⟨_, h.1, [], h.2⟩
  | copyRange hnd ha =>
    refine fun own hI h => ?_
    obtain ⟨ys, hsub⟩ := h
    have hlast := hsub.owned _ (List.mem_append_right ys (List.mem_singleton_self _))
    refine ⟨_, private_effect hI ha rfl (fun b hb hne => ?_) (fun b hb => ?_), _,
      hsub.grow (hI.owner_eq_none ha)⟩
    · simp only [Shared.setNode_heap]
      rw [Function.update_of_ne hb, Function.update_of_ne]
      rintro rfl
      exact hne hlast
    · rcases hb with rfl | hb
      · simp
      · have := hI.live b _ hb
        simp only [Shared.setNode_heap, Function.update_apply]
        split
        · simp
        · split
          · simp
          · exact this
  | copyRangeNil => exact guarantee_of_local fun own _ h => h
  | lockTail hQ hm =>
    refine guarantee_of_lockTail hQ hm fun own hI h hf => ⟨?_, h⟩
    obtain ⟨tl, htl⟩ := hI.tail_isSome hQ
    exact ⟨_, tl, Function.update_self .., rfl, htl, hf tl htl⟩
  | @constructData _ _ v _ _ _ tl nd hQ htl hnd =>
    refine fun own hI h => ?_
    obtain ⟨htail, ys, hsub⟩ := h
    obtain rfl : nd = .fresh := by simpa using hnd.symm.trans ((htail.of_queue hQ).2 tl htl)
    obtain ⟨hadm, htail', hsub'⟩ := tailWrite_step hI hQ htl htail hsub
    exact ⟨own, hadm, v, htail', ys, hsub'⟩
  | @setInitialized _ _ _ _ _ tl nd hQ htl hnd =>
    refine fun own hI h => ?_
    obtain ⟨v, htail, ys, hsub⟩ := h
    obtain rfl : nd = ⟨some v, none, false⟩ := by
      simpa using hnd.symm.trans ((htail.of_queue hQ).2 tl htl)
    obtain ⟨hadm, htail', hsub'⟩ := tailWrite_step hI hQ htl htail hsub
    exact ⟨own, hadm, v, htail', ys, hsub'⟩
  | @linkNext _ _ _ _ _ tl nd hQ htl hnd =>
    refine fun own hI h => ?_
    obtain ⟨v, htail, ys, hsub⟩ := h
    obtain rfl : nd = ⟨some v, none, true⟩ := by
      simpa using hnd.symm.trans ((htail.of_queue hQ).2 tl htl)
    obtain ⟨hadm, htail', hsub'⟩ := tailWrite_step hI hQ htl htail hsub
    exact ⟨own, hadm, v, htail', ys, hsub'⟩
  | @moveTail _ _ _ _ _ tl nd hQ htl hnd =>
    refine fun own hI h => ?_
    obtain ⟨v, htail, ys, hsub⟩ := h
    obtain ⟨hm, hf⟩ := htail.of_queue hQ
    have hnd' := hf tl htl
    obtain rfl : nd = _ := by simpa using hnd.symm.trans hnd'
    exact ⟨_, append_effect hI hQ hm htl hnd' hsub, _, _, Function.update_self .., hm, rfl, hsub.fresh⟩
  | moveTailRange hQ =>
    refine fun own hI h => ?_
    obtain ⟨v, htail, ys, hsub⟩ := h
    obtain ⟨hm, hf⟩ := htail.of_queue hQ
    obtain ⟨tl, htl⟩ := hI.tail_isSome hQ
    exact ⟨_, append_effect hI hQ hm htl (hf tl htl) hsub, _, _, Function.update_self .., hm, rfl, hsub.fresh⟩
  | unlockTail hQ =>
    refine guarantee_of_unlockTail hQ fun own _ h => ?_
    obtain ⟨hm, hf⟩ := TailNode.of_queue h hQ
    exact ⟨hm, hf, assertion_afterPush own _ _⟩

/-! ## Poppers -/

omit [DecidableEq Q] in
theorem IsAhead.holdsHead {pt : Addr} (h : IsAhead own s t q pt) : HoldsHead s t q :=
  let ⟨Q', _, _, _, ha⟩ := h
  ⟨Q', ha.queue, ha.held⟩

omit [DecidableEq Q] in
theorem IsStrictlyAhead.isAhead {pt : Addr} (h : IsStrictlyAhead own s t q pt) :
    IsAhead own s t q pt :=
  let ⟨Q', hd, tl, front, ha, _⟩ := h
  ⟨Q', hd, tl, front, ha⟩

omit [DecidableEq Q] in
/-- INTERNAL: the tail is strictly ahead when `m_head` is another node. -/
theorem IsAhead.strictly {pt : Addr} (h : IsAhead own s t q pt) (hQ : s.queues q = some Q₁)
    (hne : Q₁.mHead ≠ some pt) : IsStrictlyAhead own s t q pt := by
  obtain ⟨Q', hd, tl, front, ha⟩ := h
  obtain rfl : Q₁ = Q' := by simpa using hQ.symm.trans ha.queue
  exact ⟨Q₁, hd, tl, front, ha, fun hEq => hne (hEq ▸ ha.head)⟩

omit [DecidableEq Q] in
/-- INTERNAL: the tail that is read while nobody writes it is ahead. -/
theorem isAhead_of_readTail (hI : SharedInv own s) (hQ : s.queues q = some Q₁)
    (hm : Q₁.mHeadMut = some t) {pt : Addr} (hpt : Q₁.mTail = some pt) :
    IsAhead own s t q pt := by
  obtain ⟨hd, tl, xs, hrep⟩ := hI.rep q Q₁ hQ
  obtain rfl : pt = tl := by simpa using hpt.symm.trans hrep.tail
  exact ⟨Q₁, hd, pt, xs, hQ, hm, hrep.head, hpt, hrep.path, hrep.nodup, hrep.owned, hrep.filled,
    hrep.tail_notMem⟩

omit [DecidableEq Q] in
theorem assertion_afterLockHead (k : Take) (h : HoldsHead s t q) :
    assertion own t (afterLockHead q k) s := by
  unfold afterLockHead
  split <;> exact h

omit [DecidableEq Q] in
/-- INTERNAL: the removal starts with the tail ahead, and for a single element strictly
ahead. -/
theorem assertion_popStart {k : Take} {pt : Addr} (h : IsAhead own s t q pt)
    (hone : k.amount = .one → IsStrictlyAhead own s t q pt) :
    assertion own t (popStart q k pt) s := by
  unfold popStart
  split
  · exact hone ‹_›
  · exact h

omit [DecidableEq Q] in
theorem assertion_afterTest {k : Take} {last : Bool} {pt : Addr} (h : IsAhead own s t q pt)
    (hQ : s.queues q = some Q₁) : assertion own t (afterTest q k last pt Q₁) s := by
  unfold afterTest
  split
  · split
    · exact h.holdsHead
    · rename_i hcond
      exact assertion_popStart h fun hone => h.strictly hQ fun hhd => hcond ⟨hone, hhd⟩
  · split
    · split
      · exact h.holdsHead
      · rename_i hor hint
        exact assertion_popStart h fun _ => h.strictly hQ (hor.resolve_right hint)
    · split
      · exact h.holdsHead
      · exact h.holdsHead

omit [DecidableEq Q] in
theorem assertion_afterLoopTest {k : Take} {pt : Addr} {count : ℤ} {out : List T}
    (h : IsAhead own s t q pt) (hQ : s.queues q = some Q₁) :
    assertion own t (afterLoopTest q k pt count out Q₁) s := by
  unfold afterLoopTest
  split
  · exact h.holdsHead
  · rename_i hor
    exact h.strictly hQ fun hhd => hor (.inr hhd)

omit [DecidableEq Q] in
/-- INTERNAL: a strict tail is reached from the first node over at least one link. -/
theorem Ahead.cons {pt : Addr} {hd tl : Addr} {front : List Addr}
    (h : Ahead own s t q pt Q₁ hd tl front) (hne : hd ≠ pt) :
    ∃ c rest, front = hd :: rest ∧ nextOf s.heap hd = some c ∧ Path (nextOf s.heap) c rest pt ∧
      hd ≠ tl := by
  obtain ⟨c, rest, rfl, hn, hp⟩ := h.path.head_mem hne
  refine ⟨c, rest, rfl, hn, hp, ?_⟩
  rintro rfl
  exact h.behind (by simp)

/-- INTERNAL: after the first node is gone, the tail that was read is still ahead. -/
theorem IsStrictlyAhead.unlink {pt h : Addr} {nd : Node T} (ha : IsStrictlyAhead own s t q pt)
    (hQ : s.queues q = some Q₁) (hhd : Q₁.mHead = some h) (hnd : s.heap h = some nd) :
    Q₁.mHeadMut = some t ∧ Q₁.mHead ≠ Q₁.mTail ∧
      IsAhead (Function.update own h none)
        ((s.freeNode h).setQueue q { Q₁ with mHead := nd.mNext }) t q pt := by
  obtain ⟨Q', hd, tl, front, ha, hne⟩ := ha
  obtain rfl : Q₁ = Q' := by simpa using hQ.symm.trans ha.queue
  obtain rfl : h = hd := by simpa using hhd.symm.trans ha.head
  obtain ⟨c, rest, rfl, hn, hp, htl⟩ := ha.cons hne
  have hc : nd.mNext = some c := by simpa [nextOf, hnd] using hn
  have hnodup := ha.nodup
  rw [List.cons_append, List.nodup_cons] at hnodup
  have hb : ∀ b ∈ rest ++ [pt], b ≠ h := by
    rintro b hb rfl
    exact hnodup.1 hb
  refine ⟨ha.held, by rw [hhd, ha.tail]; simpa using htl, { Q₁ with mHead := nd.mNext }, c, tl, rest,
    Function.update_self .., ha.held, hc, ha.tail, ?_, hnodup.2, fun b hmem => ?_, fun b hmem => ?_,
    fun hmem => ha.behind (List.mem_cons_of_mem _ hmem)⟩
  · exact hp.congr fun b hmem => nextOf_congr (Function.update_of_ne (hb b (by simp [hmem])) _ _)
  · rw [Function.update_of_ne (hb b hmem)]
    exact ha.owned b (List.mem_cons_of_mem _ hmem)
  · exact (ha.filled b (by simp [hmem])).congr (Function.update_of_ne (hb b (by simp [hmem])) _ _)

omit [DecidableEq Q] in
theorem assertion_afterPop {k : Take} {pt : Addr} {count : ℤ} {out : List T}
    (h : IsAhead own s t q pt) : assertion own t (afterPop q k pt count out) s := by
  unfold afterPop
  split
  · exact h.holdsHead
  · exact h

theorem popStep_guarantee [DecidableEq Tid] (h : PopStep t p s p' s') :
    Guarantee t p s p' s' := by
  cases h with
  | lockHead hQ hm =>
    exact guarantee_of_sync hQ rfl rfl rfl fun _ _ _ => ⟨fun _ _ h => by simp [hm] at h,
      assertion_afterLockHead _ ⟨_, Function.update_self .., rfl⟩⟩
  | testInterrupt hQ =>
    refine guarantee_of_local fun own _ h => ?_
    split <;> exact h
  | lockTailMut hQ hm =>
    refine guarantee_of_lockTail hQ hm fun own hI h hf => ⟨HoldsHead.setQueue h hQ fun h => h, ?_⟩
    obtain ⟨tl, htl⟩ := hI.tail_isSome hQ
    exact ⟨_, tl, Function.update_self .., rfl, htl, hf tl htl⟩
  | readTail hQ hpt =>
    refine guarantee_of_local fun own hI h => ⟨?_, h.2⟩
    exact isAhead_of_readTail hI hQ (h.1.of_queue hQ) hpt
  | unlockTailMut hQ =>
    refine guarantee_of_unlockTail hQ fun own _ h => ?_
    obtain ⟨hm, hf⟩ := h.2.of_queue hQ
    exact ⟨hm, hf, h.1.setQueue hQ rfl rfl rfl⟩
  | testEmpty hQ => exact guarantee_of_local fun own _ h => assertion_afterTest h hQ
  | park hQ =>
    exact guarantee_of_sync hQ rfl rfl rfl fun _ _ h =>
      ⟨fun u hu hm => HoldsHead.release h hQ u hu hm _, trivial⟩
  | notified hQ ht => exact guarantee_of_local fun _ _ _ => trivial
  | spurious hQ ht | timeout hQ ht =>
    exact guarantee_of_sync hQ rfl rfl rfl fun _ _ _ => ⟨fun _ _ h => h, trivial⟩
  | relock hQ hm =>
    exact guarantee_of_sync hQ rfl rfl rfl fun _ _ _ => ⟨fun _ _ h => by simp [hm] at h,
      ⟨_, Function.update_self .., rfl⟩⟩
  | popLoop hQ => exact guarantee_of_local fun own _ h => assertion_afterLoopTest h hQ
  | popData => exact guarantee_of_local fun own _ h => h
  | popNode hQ hhd hnd =>
    refine fun own hI h => ?_
    obtain ⟨hm, hne, ha⟩ := IsStrictlyAhead.unlink h hQ hhd hnd
    exact ⟨_, unlink_effect hI hQ hm hhd hne hnd, assertion_afterPop ha⟩
  | unlockHead hQ =>
    exact guarantee_of_sync hQ rfl rfl rfl fun _ _ h =>
      ⟨fun u hu hm => HoldsHead.release h hQ u hu hm _, trivial⟩

/-! ## Sections -/

omit [DecidableEq Q] in
/-- INTERNAL: a thread that owns all mutexes of a section and sees fresh last nodes is
inside. -/
theorem inside_of_ownsAll {c : Section Q} (hI : SharedInv own s) (h : OwnsAll t c s)
    (hf : ∀ q ∈ c.queues, FreshIfHeld s t q) : Inside s t c := by
  refine ⟨h.1, fun q hq => ?_⟩
  obtain ⟨Q', hQ', hmh, hmt⟩ := h.2 q hq
  obtain ⟨tl, htl⟩ := hI.tail_isSome hQ'
  exact ⟨⟨Q', hQ', hmh⟩, Q', tl, hQ', hmt, htl, hf q hq Q' tl hQ' hmt htl⟩

omit [DecidableEq Q] in
theorem assertion_body {c : Section Q} (h : Inside s t c) :
    assertion own t (c.body : Pc Q T) s := by
  cases c with
  | clear q => exact ⟨h, by simp [Section.queues], .inl rfl⟩
  | empty q => exact ⟨h, by simp [Section.queues]⟩
  | moveConstruct this other => exact ⟨h, trivial⟩
  | moveAssign this other => exact ⟨h, by simp [Section.queues], .inr ⟨other, rfl⟩⟩

omit [DecidableEq Q] in
/-- INTERNAL: the last node of a queue is not the first node of a nonempty one. -/
theorem SharedInv.tail_ne_head (hI : SharedInv own s) (hQ : s.queues q = some Q₁)
    (hne : Q₁.mHead ≠ Q₁.mTail) {h : Addr} (hhd : Q₁.mHead = some h) {q' : Q} {Q' : Queue Tid}
    {tl : Addr} (hQ' : s.queues q' = some Q') (htl : Q'.mTail = some tl) : tl ≠ h := by
  rintro rfl
  obtain ⟨hd, tl', xs, hrep⟩ := hI.rep q Q₁ hQ
  obtain rfl : tl = hd := by simpa using hhd.symm.trans hrep.head
  obtain ⟨c, ys, rfl, -, -⟩ := hrep.path.head_mem fun hEq => hne (by rw [hhd, hrep.tail, hEq])
  obtain rfl : q = q' := by
    simpa using (hrep.owned tl (by simp)).symm.trans (hI.owned_tail hQ' htl)
  obtain rfl : Q₁ = Q' := by simpa using hQ.symm.trans hQ'
  exact hne (hhd.trans htl.symm)

/-- INTERNAL: deleting the first node of a nonempty queue keeps a thread inside its
section. -/
theorem Inside.unlink {c : Section Q} {h : Addr} {nd : Node T} (hI : SharedInv own s)
    (hin : Inside s t c) (hQ : s.queues q = some Q₁) (hne : Q₁.mHead ≠ Q₁.mTail)
    (hhd : Q₁.mHead = some h) :
    Inside ((s.freeNode h).setQueue q { Q₁ with mHead := nd.mNext }) t c := by
  refine ⟨hin.1, fun q' hq' => ⟨?_, ?_⟩⟩
  · exact HoldsHead.setQueue (s := s.freeNode h) (hin.2 q' hq').1 hQ fun h => h
  · refine TailNode.setQueue (s := s.freeNode h) ?_ hQ rfl fun h => h
    obtain ⟨Q', tl, hQ', hm, htl, hnd⟩ := (hin.2 q' hq').2
    exact ⟨Q', tl, hQ', hm, htl,
      (Function.update_of_ne (hI.tail_ne_head hQ hne hhd hQ' htl) _ _).trans hnd⟩

omit [DecidableEq Q] in
theorem Inside.freshIfHeld {c : Section Q} (h : Inside s t c) : ∀ q ∈ c.queues, FreshIfHeld s t q :=
  fun q hq => (h.2 q hq).2.freshIfHeld

/-- INTERNAL: after a move both queues end in a fresh node. -/
theorem freshIfHeld_transfer {heap' : Addr → Option (Node T)} {this other : Q} {O D : Queue Tid}
    {a : Addr} (hfresh : heap' a = some .fresh)
    (hD : ∀ tl, D.mTail = some tl → heap' tl = some .fresh) (q' : Q)
    (hq' : q' = this ∨ q' = other) :
    FreshIfHeld (⟨heap', Function.update (Function.update s.queues other
      (some { O with mHead := some a, mTail := some a })) this (some D)⟩ : Shared Tid Q T) t q' := by
  intro Q' tl hQ' _ htl
  by_cases hq : q' = this
  · subst hq
    obtain rfl : D = Q' := by simpa using hQ'
    exact hD tl htl
  · obtain rfl := hq'.resolve_left hq
    obtain rfl : { O with mHead := some a, mTail := some a } = Q' := by
      simpa [Function.update_of_ne hq] using hQ'
    obtain rfl : a = tl := by simpa using htl
    exact hfresh

theorem lockedStep_guarantee [DecidableEq Tid] (h : LockedStep t p s p' s') :
    Guarantee t p s p' s' := by
  cases h with
  | acquireHead hq hQ hm =>
    exact guarantee_of_sync hQ rfl rfl rfl fun _ _ h => ⟨fun _ _ h => by simp [hm] at h,
      fun q hq => (h q hq).setQueue hQ rfl fun h => .inl h⟩
  | acquireTail hq hQ hm =>
    exact guarantee_of_lockTail hQ hm fun own _ h hf q hq =>
      (h q hq).setQueue hQ rfl fun _ => .inr hf
  | backOffHead hq hQ hm | releaseHead hq hQ hm =>
    exact guarantee_of_sync hQ rfl rfl rfl fun _ _ h =>
      ⟨fun u hu h => absurd (by simpa using h.symm.trans hm) hu,
        fun q hq => (h q hq).setQueue hQ rfl fun h => .inl h⟩
  | backOffTail hq hQ hm | releaseTail hq hQ hm =>
    exact guarantee_of_unlockTail hQ fun own _ h => ⟨hm, fun tl htl => h _ hq _ tl hQ hm htl,
      fun q hq => (h q hq).setQueue hQ rfl fun h => by simp at h⟩
  | enter hall =>
    exact guarantee_of_local fun own hI h => assertion_body (inside_of_ownsAll hI hall h)
  | @clearNode _ c q Q₁ h nd hQ hne hhd hnd =>
    refine fun own hI has => ?_
    obtain ⟨hin, hq, hc⟩ := has
    exact ⟨_, unlink_effect hI hQ ((hin.2 q hq).1.of_queue hQ) hhd hne hnd,
      hin.unlink hI hQ hne hhd, hq, hc⟩
  | @cleared _ c q Q₁ hQ heq =>
    refine guarantee_of_local fun own _ has => ?_
    obtain ⟨hin, -, rfl | ⟨other, rfl⟩⟩ := has
    · exact hin.freshIfHeld
    · refine ⟨hin, fun Q' hQ' => ?_⟩
      obtain rfl : Q₁ = Q' := by simpa using hQ.symm.trans hQ'
      exact heq
  | testQueue hQ => exact guarantee_of_local fun own _ has => has.1.freshIfHeld
  | @moveConstruct _ this other O a hthis hO ha =>
    refine fun own hI has => ?_
    obtain ⟨hhead, htail⟩ := has.1.2 other (by simp [Section.queues])
    obtain ⟨hmt, hf⟩ := htail.of_queue hO
    have hne : this ≠ other := by
      rintro rfl
      simp [hthis] at hO
    have hkeep : ∀ b, b ≠ a → Function.update s.heap a (some .fresh) b = s.heap b := fun b hb =>
      Function.update_of_ne hb _ _
    have htl : ∀ tl, O.mTail = some tl → tl ≠ a := by
      rintro tl htl rfl
      have hlive := hf tl htl
      rw [ha] at hlive
      cases hlive
    refine ⟨own.move this other a, transfer_effect hI hne hO (hhead.of_queue hO) hmt hf
      (D := ⟨none, none, [], false, O.mHead, O.mTail⟩) (by simp [hthis]) rfl rfl (by simp)
      (fun o ho => ?_) (fun b o hb _ _ => hkeep b hb) (Function.update_self ..), fun q hq => ?_⟩
    · simp [hI.owner_eq_none ha] at ho
    · exact freshIfHeld_transfer (D := ⟨none, none, [], false, O.mHead, O.mTail⟩)
        (Function.update_self ..) (fun tl h => (hkeep tl (htl tl h)).trans (hf tl h)) q
        (.inr (by simpa [Section.queues] using hq))
  | @moveAssign _ this other D O d a hD hO hd ha =>
    refine fun own hI has => ?_
    obtain ⟨hin, hclear⟩ := has
    obtain ⟨hhead, htail⟩ := hin.2 other (by simp [Section.queues])
    obtain ⟨hheadD, htailD⟩ := hin.2 this (by simp [Section.queues])
    obtain ⟨hmt, hf⟩ := htail.of_queue hO
    have hne : this ≠ other := by
      have := hin.1
      simpa [Section.queues] using this
    -- the node that is deleted is the only one of `this`
    have hdq : own d = some (.queue this) := hI.owned_tail hD ((hclear D hD).symm.trans hd)
    have hkeep : ∀ b o, b ≠ a → own b = some o → o ≠ .queue this →
        Function.update (Function.update s.heap d none) a (some .fresh) b = s.heap b := by
      intro b o hb ho hoq
      rw [Function.update_of_ne hb, Function.update_of_ne]
      rintro rfl
      exact hoq (by simpa using ho.symm.trans hdq)
    have ha' : ∀ o, own a = some o → o = .queue this := by
      intro o ho
      by_cases had : a = d
      · subst had
        simpa using ho.symm.trans hdq
      · have hnone : s.heap a = none := by simpa [Function.update_of_ne had] using ha
        simp [hI.owner_eq_none hnone] at ho
    have htl : ∀ tl, O.mTail = some tl →
        Function.update (Function.update s.heap d none) a (some .fresh) tl = s.heap tl := by
      intro tl htl
      have hown := hI.owned_tail hO htl
      refine hkeep tl _ ?_ hown (by simpa using hne.symm)
      rintro rfl
      have hEq := ha' _ hown
      exact hne (by simpa using hEq.symm)
    refine ⟨own.move this other a, transfer_effect hI hne hO (hhead.of_queue hO) hmt hf
      (D := { D with mHead := O.mHead, mTail := O.mTail }) (fun Q' hQ' => ?_) rfl rfl
      (fun u hu => ?_) ha' hkeep (Function.update_self ..), fun q hq => ?_⟩
    · exact ⟨hheadD.of_queue hQ', (htailD.of_queue hQ').1⟩
    · rw [(htailD.of_queue hD).1]
      simpa using Ne.symm hu
    · exact freshIfHeld_transfer (D := { D with mHead := O.mHead, mTail := O.mTail })
        (Function.update_self ..) (fun tl h => (htl tl h).trans (hf tl h)) q
        (by simpa [Section.queues] using hq)
  | released => exact guarantee_of_local fun own _ _ => trivial

/-! ## Runs -/

/-- Every step of a thread that owns no mutex outside its critical sections pays what it
owes. -/
theorem queueStep_guarantee [DecidableEq Tid] {l : Lab Q T} (hown : OwnsAt s t p)
    (h : QueueStep t p s l p' s') : Guarantee t p s p' s' := by
  cases h with
  | client h => exact clientStep_guarantee hown h
  | push h => exact pushStep_guarantee h
  | pop h => exact popStep_guarantee h
  | locked h => exact lockedStep_guarantee h

/-- The outline holds in every configuration of every run. -/
theorem outline_run [DecidableEq Tid]
    {G : Config Tid (Pc Q T) (Shared Tid Q T) → Tid × Lab Q T → Prop}
    {c₀ c : Config Tid (Pc Q T) (Shared Tid Q T)} {tr : List (Tid × Lab Q T)}
    (h₀ : (outline Tid Q T).Holds c₀) (hl₀ : LocksExact c₀) (h : Run QueueStep G c₀ tr c) :
    (outline Tid Q T).Holds c :=
  (outline Tid Q T).holds_run h₀
    (fun _ _ _ _ _ _ hr _ hP => (queueStep_guarantee (locks_run hl₀ hr _) hP).sound) h

/-- INTERNAL: writing a queue object makes none disappear. -/
theorem isSome_setQueue (hq : (s.queues q).isSome) (q' : Q) (Q₂ : Queue Tid) :
    ((s.setQueue q' Q₂).queues q).isSome := by
  by_cases h : q = q'
  · simp [h]
  · simpa [Function.update_of_ne h] using hq

/-- A queue object stays. -/
theorem queueStep_isSome [DecidableEq Tid] {l : Lab Q T} (h : QueueStep t p s l p' s') (q : Q)
    (hq : (s.queues q).isSome) : (s'.queues q).isSome := by
  cases h with
  | client h => cases h <;> first | exact hq | exact isSome_setQueue hq _ _
  | push h => cases h <;> first | exact hq | exact isSome_setQueue hq _ _
  | pop h => cases h <;> first | exact hq | exact isSome_setQueue hq _ _
  | locked h =>
    cases h <;> first
      | exact hq | exact isSome_setQueue hq _ _ | exact isSome_setQueue (isSome_setQueue hq _ _) _ _

/-- No queue object has its interrupt flag set. -/
def NoInterrupt (s : Shared Tid Q T) : Prop :=
  ∀ q Q', s.queues q = some Q' → Q'.mInterruptWaiting = false

theorem NoInterrupt.setQueue {q : Q} (h : NoInterrupt s) (h₂ : Q₂.mInterruptWaiting = false) :
    NoInterrupt (s.setQueue q Q₂) := by
  intro q' Q' hQ'
  by_cases hq : q' = q
  · subst hq
    obtain rfl : Q₂ = Q' := by simpa using hQ'
    exact h₂
  · exact h q' Q' (by simpa [Function.update_of_ne hq] using hQ')

/-- INTERNAL: writing other members keeps the flag as it is. -/
theorem NoInterrupt.keep (h : NoInterrupt s) (hQ : s.queues q = some Q₁)
    (h₂ : Q₂.mInterruptWaiting = Q₁.mInterruptWaiting) : NoInterrupt (s.setQueue q Q₂) :=
  h.setQueue (h₂.trans (h q Q₁ hQ))

/-- Only `stop_waitings` sets the interrupt flag. -/
theorem queueStep_noInterrupt [DecidableEq Tid] {l : Lab Q T} (h : NoInterrupt s)
    (hp : ∀ q, p ≠ .setStop q) (hs : QueueStep t p s l p' s') : NoInterrupt s' := by
  cases hs with
  | client hs =>
    cases hs with
    | call | ret | notifyNobody => exact h
    | create => exact NoInterrupt.setQueue h rfl
    | notifyOne hQ | notifyAll hQ | lockStop hQ | unlockStop hQ => exact h.keep hQ rfl
    | setStop => exact absurd rfl (hp _)
  | push hs =>
    cases hs with
    | lockTail hQ | moveTail hQ | moveTailRange hQ | unlockTail hQ => exact h.keep hQ rfl
    | _ => exact h
  | pop hs =>
    cases hs with
    | lockHead hQ | lockTailMut hQ | unlockTailMut hQ | park hQ | spurious hQ | timeout hQ
    | relock hQ | unlockHead hQ => exact h.keep hQ rfl
    | popNode hQ => exact NoInterrupt.keep h hQ rfl
    | _ => exact h
  | locked hs =>
    cases hs with
    | acquireHead _ hQ | acquireTail _ hQ | backOffHead _ hQ | backOffTail _ hQ
    | releaseHead _ hQ | releaseTail _ hQ => exact h.keep hQ rfl
    | clearNode hQ => exact NoInterrupt.keep h hQ rfl
    | moveConstruct _ hO => exact NoInterrupt.setQueue (NoInterrupt.keep h hO rfl) rfl
    | moveAssign hD hO => exact NoInterrupt.setQueue (NoInterrupt.keep h hO rfl) (h _ _ hD :)
    | _ => exact h

omit [DecidableEq Q] in
/-- The outline holds before any queue is constructed. -/
theorem outline_noQueues : (outline Tid Q T).Holds (noQueues Tid Q T) :=
  ⟨fun _ => none, ⟨by simp [noQueues], by simp [noQueues], by simp⟩, fun _ => trivial⟩

omit [DecidableEq Q] in
theorem locksExact_noQueues : LocksExact (noQueues Tid Q T) := by
  intro t q Q' hQ'
  simp [noQueues] at hQ'

/-- The outline holds of a queue just constructed. -/
theorem outline_oneQueue : (outline Tid Unit T).Holds (oneQueue Tid T) := by
  refine ⟨Function.update (fun _ => none) 0 (some (.queue ())), ⟨?_, ?_, ?_⟩, fun _ => trivial⟩
  · intro q Q' hQ'
    obtain rfl : (⟨none, none, [], false, some 0, some 0⟩ : Queue Tid) = Q' := by
      simpa [oneQueue] using hQ'
    exact ⟨0, 0, [], rfl, rfl, .nil 0, by simp, by simp, by simp⟩
  · intro q Q' tl hQ' _ htl
    obtain rfl : (⟨none, none, [], false, some 0, some 0⟩ : Queue Tid) = Q' := by
      simpa [oneQueue] using hQ'
    obtain rfl : 0 = tl := by simpa using htl
    simp [oneQueue]
  · intro a o ha
    by_cases h : a = 0
    · simp [oneQueue, h]
    · simp [Function.update_of_ne h] at ha

theorem locksExact_oneQueue : LocksExact (oneQueue Tid T) := by
  intro t q Q' hQ'
  obtain rfl : (⟨none, none, [], false, some 0, some 0⟩ : Queue Tid) = Q' := by
    simpa [oneQueue] using hQ'
  simp

end UbuntuProjects.TsQueue
