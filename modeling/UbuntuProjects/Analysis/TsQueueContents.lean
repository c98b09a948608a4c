import UbuntuProjects.Analysis.TsQueueRepresentation

/-!
# The elements of a queue and what the steps of `ts_queue` do to them

A queue holds the values in its nodes from `m_head` up to the last node (`Contents`).
Two kinds of steps change them: a push that moves `m_tail` appends the values of its
nodes (`contents_append`), and deleting the first node removes the first value
(`contents_unlink`). All other steps keep them.
-/

set_option autoImplicit false

namespace UbuntuProjects.TsQueue

open Concurrency

variable {Tid Q T : Type}

/-- The value in a live node. -/
def Stores (heap : Addr → Option (Node T)) (a : Addr) (v : T) : Prop :=
  ∃ nd, heap a = some nd ∧ nd.data = some v

/-- The nodes `xs` lead from `m_head` to `m_tail`. -/
structure Spine (s : Shared Tid Q T) (q : Q) (Q' : Queue Tid) (hd tl : Addr) (xs : List Addr) :
    Prop where
  queue : s.queues q = some Q'
  head : Q'.mHead = some hd
  tail : Q'.mTail = some tl
  path : Path (nextOf s.heap) hd xs tl
  tail_notMem : tl ∉ xs

/-- The queue holds the values `vs`. -/
def Contents (s : Shared Tid Q T) (q : Q) (vs : List T) : Prop :=
  ∃ Q' hd tl xs, Spine s q Q' hd tl xs ∧ List.Forall₂ (Stores s.heap) xs vs

/-- The chain of private nodes from `first` to `last` holds the values `ws`. -/
def SubStores (heap : Addr → Option (Node T)) (first last : Addr) (ws : List T) : Prop :=
  ∃ ys, Path (nextOf heap) first ys last ∧ List.Forall₂ (Stores heap) ys ws

theorem Stores.congr {heap heap' : Addr → Option (Node T)} {a : Addr} {v : T}
    (h : Stores heap a v) (ha : heap' a = heap a) : Stores heap' a v := by
  rw [Stores, ha]
  exact h

theorem Stores.unique {heap : Addr → Option (Node T)} {a : Addr} {v w : T}
    (h : Stores heap a v) (h' : Stores heap a w) : v = w := by
  obtain ⟨nd, hnd, hv⟩ := h
  obtain ⟨nd', hnd', hw⟩ := h'
  obtain rfl : nd = nd' := by simpa using hnd.symm.trans hnd'
  simpa using hv.symm.trans hw

/-- INTERNAL: the values of nodes that are not written stay. -/
theorem forall₂_stores_congr {heap heap' : Addr → Option (Node T)} {xs : List Addr} {vs : List T}
    (h : List.Forall₂ (Stores heap) xs vs) (hx : ∀ a ∈ xs, heap' a = heap a) :
    List.Forall₂ (Stores heap') xs vs := by
  induction h with
  | nil => exact .nil
  | cons ha _ ih =>
    exact .cons (ha.congr (hx _ (by simp))) (ih fun a ha => hx a (by simp [ha]))

theorem forall₂_stores_unique {heap : Addr → Option (Node T)} {xs : List Addr} {vs ws : List T}
    (h : List.Forall₂ (Stores heap) xs vs) (h' : List.Forall₂ (Stores heap) xs ws) : vs = ws := by
  induction h generalizing ws with
  | nil => cases h'; rfl
  | cons ha _ ih =>
    cases h' with
    | cons ha' h' => rw [ha.unique ha', ih h']

/-- INTERNAL: filled nodes have values. -/
theorem exists_stores {heap : Addr → Option (Node T)} {xs : List Addr}
    (h : ∀ a ∈ xs, Filled heap a) : ∃ vs, List.Forall₂ (Stores heap) xs vs := by
  induction xs with
  | nil => exact ⟨[], .nil⟩
  | cons a xs ih =>
    obtain ⟨nd, v, hnd, hv, -⟩ := h a (by simp)
    obtain ⟨vs, hvs⟩ := ih fun b hb => h b (by simp [hb])
    exact ⟨v :: vs, .cons ⟨nd, hnd, hv⟩ hvs⟩

section Basic

variable {own : Owners Tid Q} {s s' : Shared Tid Q T} {q : Q} {Q₁ Q₂ : Queue Tid} {hd tl : Addr}
  {xs : List Addr} {vs ws : List T}

theorem QueueRep.spine (h : QueueRep own s.heap q Q₁ hd tl xs) (hQ : s.queues q = some Q₁) :
    Spine s q Q₁ hd tl xs :=
  ⟨hQ, h.head, h.tail, h.path, h.tail_notMem⟩

/-- A queue has one spine. -/
theorem Spine.unique {hd' tl' : Addr} {xs' : List Addr} (h : Spine s q Q₁ hd tl xs)
    (h' : Spine s q Q₂ hd' tl' xs') : Q₁ = Q₂ ∧ hd = hd' ∧ tl = tl' ∧ xs = xs' := by
  obtain rfl : Q₁ = Q₂ := by simpa using h.queue.symm.trans h'.queue
  obtain rfl : hd = hd' := by simpa using h.head.symm.trans h'.head
  obtain rfl : tl = tl' := by simpa using h.tail.symm.trans h'.tail
  exact ⟨rfl, rfl, rfl, h.path.unique h'.path h.tail_notMem h'.tail_notMem⟩

/-- INTERNAL: the nodes of the spine belong to the queue. -/
theorem Spine.owned (h : Spine s q Q₁ hd tl xs) (hI : SharedInv own s) :
    ∀ a ∈ xs, own a = some (.queue q) := by
  obtain ⟨hd', tl', xs', hrep⟩ := hI.rep q Q₁ h.queue
  obtain ⟨-, -, -, rfl⟩ := h.unique (hrep.spine h.queue)
  exact fun a ha => hrep.owned a (by simp [ha])

theorem Spine.nodup (h : Spine s q Q₁ hd tl xs) (hI : SharedInv own s) : (xs ++ [tl]).Nodup := by
  obtain ⟨hd', tl', xs', hrep⟩ := hI.rep q Q₁ h.queue
  obtain ⟨-, -, rfl, rfl⟩ := h.unique (hrep.spine h.queue)
  exact hrep.nodup

/-- A queue holds one list of values. -/
theorem Contents.unique (h : Contents s q vs) (h' : Contents s q ws) : vs = ws := by
  obtain ⟨Q', hd, tl, xs, hsp, hv⟩ := h
  obtain ⟨Q'', hd', tl', xs', hsp', hw⟩ := h'
  obtain ⟨-, -, -, rfl⟩ := hsp.unique hsp'
  exact forall₂_stores_unique hv hw

/-- Every queue object holds some list of values. -/
theorem SharedInv.contents (hI : SharedInv own s) (hQ : s.queues q = some Q₁) :
    ∃ vs, Contents s q vs := by
  obtain ⟨hd, tl, xs, hrep⟩ := hI.rep q Q₁ hQ
  obtain ⟨vs, hvs⟩ := exists_stores hrep.filled
  exact ⟨vs, Q₁, hd, tl, xs, hrep.spine hQ, hvs⟩

/-- The queue is empty when both pointers agree. -/
theorem Contents.nil_iff (h : Contents s q vs) (hQ : s.queues q = some Q₁) :
    vs = [] ↔ Q₁.mHead = Q₁.mTail := by
  obtain ⟨Q', hd, tl, xs, hsp, hv⟩ := h
  obtain rfl : Q₁ = Q' := by simpa using hQ.symm.trans hsp.queue
  rw [hsp.head, hsp.tail]
  constructor
  · rintro rfl
    cases hv
    rw [Path.nil_iff.mp hsp.path]
  · intro hEq
    obtain rfl : hd = tl := by simpa using hEq
    cases hv with
    | nil => rfl
    | cons =>
      obtain ⟨rfl, -⟩ := Path.cons_iff.mp hsp.path
      exact absurd (by simp) hsp.tail_notMem

/-- INTERNAL: values do not change while the pointers and the nodes before the last one
stay. -/
theorem Contents.frame (h : Contents s q vs) (hI : SharedInv own s) (hQ₁ : s.queues q = some Q₁)
    (hQ₂ : s'.queues q = some Q₂) (hhd : Q₂.mHead = Q₁.mHead) (htl : Q₂.mTail = Q₁.mTail)
    (hheap : ∀ a, own a = some (.queue q) → Q₁.mTail ≠ some a → s'.heap a = s.heap a) :
    Contents s' q vs := by
  obtain ⟨Q', hd, tl, xs, hsp, hv⟩ := h
  obtain rfl : Q₁ = Q' := by simpa using hQ₁.symm.trans hsp.queue
  have hx : ∀ a ∈ xs, s'.heap a = s.heap a := by
    refine fun a ha => hheap a (hsp.owned hI a ha) ?_
    rw [hsp.tail]
    rintro hEq
    obtain rfl : tl = a := by simpa using hEq
    exact hsp.tail_notMem ha
  exact ⟨Q₂, hd, tl, xs, ⟨hQ₂, hhd.trans hsp.head, htl.trans hsp.tail,
    hsp.path.congr fun a ha => nextOf_congr (hx a ha), hsp.tail_notMem⟩,
    forall₂_stores_congr hv hx⟩

end Basic

section Steps

variable [DecidableEq Q] {own : Owners Tid Q} {s s' : Shared Tid Q T} {t : Tid} {q : Q}
  {Q₁ Q₂ : Queue Tid} {p p' : Pc Q T} {vs : List T}

/-- INTERNAL: writing members of a queue other than its two pointers keeps all values. -/
theorem Contents.setQueue {q' : Q} (h : Contents s q vs) (hQ : s.queues q' = some Q₁)
    (hhd : Q₂.mHead = Q₁.mHead) (htl : Q₂.mTail = Q₁.mTail) :
    Contents (s.setQueue q' Q₂) q vs := by
  obtain ⟨Q', hd, tl, xs, hsp, hv⟩ := h
  by_cases hq : q = q'
  · subst hq
    obtain rfl : Q₁ = Q' := by simpa using hQ.symm.trans hsp.queue
    exact ⟨Q₂, hd, tl, xs, ⟨by simp, hhd.trans hsp.head, htl.trans hsp.tail, hsp.path,
      hsp.tail_notMem⟩, hv⟩
  · exact ⟨Q', hd, tl, xs, ⟨by simpa [Function.update_of_ne hq] using hsp.queue, hsp.head,
      hsp.tail, hsp.path, hsp.tail_notMem⟩, hv⟩

/-- Calls, returns and notifications keep the values. -/
theorem clientStep_contents [DecidableEq Tid] {l : Lab Q T} (hI : SharedInv own s)
    (h : ClientStep t p s l p' s') (hc : Contents s q vs) : Contents s' q vs := by
  cases h with
  | call | ret | notifyNobody => exact hc
  | @create _ q' a hq' ha =>
    obtain ⟨Q', hd, tl, xs, hsp, hv⟩ := id hc
    have hne : q ≠ q' := by
      rintro rfl
      simp [hsp.queue] at hq'
    refine hc.frame hI hsp.queue (by simpa [Function.update_of_ne hne] using hsp.queue) rfl rfl
      fun b hb _ => Function.update_of_ne ?_ _ _
    rintro rfl
    simp [hI.owner_eq_none ha] at hb
  | notifyOne hQ | notifyAll hQ | lockStop hQ | setStop hQ | unlockStop hQ =>
    exact hc.setQueue hQ rfl rfl

/-- A push keeps the values until it moves `m_tail`. -/
theorem pushStep_contents (hI : SharedInv own s) (has : assertion own t p s)
    (h : PushStep t p s p' s') (hp : ∀ q' sub n, p ≠ .moveTail q' sub n)
    (hc : Contents s q vs) : Contents s' q vs := by
  have hheap : ∀ Q', s.queues q = some Q' → ∀ a, own a = some (.queue q) →
      Q'.mTail ≠ some a → s'.heap a = s.heap a := by
    intro Q' hQ' a ha hne
    refine pushStep_written h (hI.live a _ ha) fun hw => ?_
    rcases written_cases hI has hw with hu | ⟨q₂, Q₂, hQ₂, htl₂, hu⟩
    · simp [ha] at hu
    · obtain rfl : q = q₂ := by simpa using ha.symm.trans hu
      obtain rfl : Q' = Q₂ := by simpa using hQ'.symm.trans hQ₂
      exact hne htl₂
  have hkeep : s'.queues = s.queues → Contents s' q vs := by
    intro hqs
    obtain ⟨Q', _, _, _, hsp, -⟩ := id hc
    exact hc.frame hI hsp.queue (hqs ▸ hsp.queue) rfl rfl (hheap Q' hsp.queue)
  cases h with
  | makeNode | makeSub | copyRange | constructData | setInitialized | linkNext => exact hkeep rfl
  | makeSubNil | copyRangeNil => exact hc
  | lockTail hQ | unlockTail hQ => exact hc.setQueue hQ rfl rfl
  | moveTail | moveTailRange => exact absurd rfl (hp _ _ _)

/-- Moving `m_tail` behind the nodes linked to the last one appends their values. -/
theorem contents_append (hc : Contents s q vs) (hI : SharedInv own s)
    (hQ : s.queues q = some Q₁) {tl first last : Addr} {v : T} {ws : List T} {ys : List Addr}
    (htl : Q₁.mTail = some tl) (hnd : s.heap tl = some ⟨some v, some first, true⟩)
    (hsub : SubRep own s.heap t first last ys) (hys : List.Forall₂ (Stores s.heap) ys ws) :
    Contents (s.setQueue q { Q₁ with mTail := some last }) q (vs ++ v :: ws) := by
  obtain ⟨Q', hd, tl', xs, hsp, hv⟩ := hc
  obtain rfl : Q₁ = Q' := by simpa using hQ.symm.trans hsp.queue
  obtain rfl : tl = tl' := by simpa using htl.symm.trans hsp.tail
  refine ⟨_, hd, last, xs ++ tl :: ys, ⟨Function.update_self .., hsp.head, rfl, ?_, ?_⟩, ?_⟩
  · exact hsp.path.append (.cons (by simp [nextOf, hnd]) hsub.path)
  · -- the new last node was private, or the end of the private chain
    have hlast := hsub.owned last (by simp)
    intro hmem
    rcases List.mem_append.mp hmem with hmem | hmem
    · simp [hsp.owned hI last hmem] at hlast
    · rcases List.mem_cons.mp hmem with rfl | hmem
      · simp [hI.owned_tail hQ htl] at hlast
      · exact (List.nodup_append.mp hsub.nodup).2.2 last hmem last (by simp) rfl
  · exact List.rel_append hv (.cons ⟨_, hnd, rfl⟩ hys)

/-- Deleting the first node of a nonempty queue removes the first value. -/
theorem contents_unlink (hc : Contents s q vs) (hI : SharedInv own s)
    (hQ : s.queues q = some Q₁) {h : Addr} {nd : Node T} (hhd : Q₁.mHead = some h)
    (hne : Q₁.mHead ≠ Q₁.mTail) (hnd : s.heap h = some nd) :
    ∃ v vs', vs = v :: vs' ∧ Stores s.heap h v ∧
      Contents ((s.freeNode h).setQueue q { Q₁ with mHead := nd.mNext }) q vs' := by
  obtain ⟨Q', hd, tl, xs, hsp, hv⟩ := hc
  obtain rfl : Q₁ = Q' := by simpa using hQ.symm.trans hsp.queue
  obtain rfl : h = hd := by simpa using hhd.symm.trans hsp.head
  have hhtl : h ≠ tl := fun hEq => hne (by rw [hhd, hsp.tail, hEq])
  have hnodup := hsp.nodup hI
  obtain ⟨c, xs', rfl, hn, hpath⟩ := hsp.path.head_mem hhtl
  have hc' : nd.mNext = some c := by simpa [nextOf, hnd] using hn
  cases hv with
  | @cons _ v _ vs' hst hv =>
    rw [List.cons_append, List.nodup_cons] at hnodup
    have hx : ∀ a ∈ xs', Function.update s.heap h none a = s.heap a := by
      refine fun a ha => Function.update_of_ne ?_ _ _
      rintro rfl
      exact hnodup.1 (by simp [ha])
    refine ⟨v, vs', rfl, hst, _, c, tl, xs', ⟨Function.update_self .., hc', hsp.tail, ?_,
      fun hm => hsp.tail_notMem (List.mem_cons_of_mem _ hm)⟩, forall₂_stores_congr hv hx⟩
    exact hpath.congr fun a ha => nextOf_congr (hx a ha)

/-- A pop keeps the values until it deletes a node. -/
theorem popStep_contents [DecidableEq Tid] (h : PopStep t p s p' s')
    (hp : ∀ q' k pt count out, p ≠ .popNode q' k pt count out) (hc : Contents s q vs) :
    Contents s' q vs := by
  cases h with
  | testInterrupt | readTail | testEmpty | notified | popLoop | popData => exact hc
  | lockHead hQ | lockTailMut hQ | unlockTailMut hQ | park hQ | spurious hQ | timeout hQ
  | relock hQ | unlockHead hQ => exact hc.setQueue hQ rfl rfl
  | popNode => exact absurd rfl (hp _ _ _ _ _)

end Steps

end UbuntuProjects.TsQueue
