import UbuntuProjects.Analysis.TsQueueAssertions

/-!
# What the steps of `ts_queue` do to the shared state

The steps change the shared state in few ways: they acquire or release a mutex or touch
the condition variable (`sync_effect`), they allocate and write private nodes
(`private_effect`), write the last node (`tailWrite_effect`), append private nodes
(`append_effect`), unlink the first node (`unlink_effect`), build a queue
(`create_effect`), or move all nodes of one queue to another (`transfer_effect`). Each
effect keeps the shared invariant and is one the other threads rely on (`Admissible`).
-/

set_option autoImplicit false

namespace UbuntuProjects.TsQueue

open Concurrency

variable {Tid Q T : Type} [DecidableEq Q] {own own' : Owners Tid Q} {s s' : Shared Tid Q T} {t : Tid}
  {q : Q} {Q₁ Q₂ : Queue Tid}

/-- An effect of thread `t`: the shared invariant holds again and the other threads do
not mind. -/
def Admissible (own own' : Owners Tid Q) (t : Tid) (s s' : Shared Tid Q T) : Prop :=
  SharedInv own' s' ∧ ∀ u, u ≠ t → Rely own own' u s s'

/-- What a step of thread `t` owes: an effect the other threads do not mind, after which
the assertion at the thread's next control point holds. -/
def Guarantee (t : Tid) (p : Pc Q T) (s : Shared Tid Q T) (p' : Pc Q T) (s' : Shared Tid Q T) :
    Prop :=
  ∀ own, SharedInv own s → assertion own t p s →
    ∃ own', Admissible own own' t s s' ∧ assertion own' t p' s'

omit [DecidableEq Q] in
/-- INTERNAL: a step that pays what it owes is sound. -/
theorem Guarantee.sound {p p' : Pc Q T} (h : Guarantee t p s p' s') :
    (outline Tid Q T).Sound t p s p' s' := by
  intro own hI hp
  obtain ⟨own', ⟨hI', hr⟩, hp'⟩ := h own hI hp
  exact ⟨own', hI', hp', fun u hu p₂ h₂ => assertion_rely (hr u hu) p₂ h₂⟩

omit [DecidableEq Q] in
/-- INTERNAL: a representation does not depend on nodes outside it, nor on what is
written in its last node. -/
theorem QueueRep.frame {heap heap' : Addr → Option (Node T)} {hd tl : Addr} {xs : List Addr}
    (h : QueueRep own heap q Q₁ hd tl xs)
    (hown : ∀ a ∈ xs ++ [tl], own' a = some (.queue q))
    (hheap : ∀ a ∈ xs, heap' a = heap a) (hhd : Q₂.mHead = Q₁.mHead)
    (htl : Q₂.mTail = Q₁.mTail) : QueueRep own' heap' q Q₂ hd tl xs where
  head := hhd.trans h.head
  tail := htl.trans h.tail
  path := h.path.congr fun a ha => nextOf_congr (hheap a ha)
  nodup := h.nodup
  owned := hown
  filled a ha := (h.filled a ha).congr (hheap a ha)

omit [DecidableEq Q] in
theorem QueueRep.owned_tail {heap : Addr → Option (Node T)} {hd tl : Addr} {xs : List Addr}
    (h : QueueRep own heap q Q₁ hd tl xs) : own tl = some (.queue q) :=
  h.owned tl (by simp)

omit [DecidableEq Q] in
theorem QueueRep.tail_notMem {heap : Addr → Option (Node T)} {hd tl : Addr} {xs : List Addr}
    (h : QueueRep own heap q Q₁ hd tl xs) : tl ∉ xs := fun hm =>
  (List.nodup_append.mp h.nodup).2.2 tl hm tl (by simp) rfl

omit [DecidableEq Q] in
/-- INTERNAL: the last node belongs to its queue. -/
theorem SharedInv.owned_tail (hI : SharedInv own s) (hQ : s.queues q = some Q₁) {tl : Addr}
    (htl : Q₁.mTail = some tl) : own tl = some (.queue q) := by
  obtain ⟨hd, tl', xs, hrep⟩ := hI.rep q Q₁ hQ
  obtain rfl : tl = tl' := by simpa using htl.symm.trans hrep.tail
  exact hrep.owned_tail

omit [DecidableEq Q] in
/-- INTERNAL: an address that is not live has no owner. -/
theorem SharedInv.owner_eq_none (hI : SharedInv own s) {a : Addr} (ha : s.heap a = none) :
    own a = none := by
  cases h : own a with
  | none => rfl
  | some o => simpa [ha] using hI.live a o h

omit [DecidableEq Q] in
/-- INTERNAL: a tail pointer exists. -/
theorem SharedInv.tail_isSome (hI : SharedInv own s) (hQ : s.queues q = some Q₁) :
    ∃ tl, Q₁.mTail = some tl := by
  obtain ⟨hd, tl, xs, hrep⟩ := hI.rep q Q₁ hQ
  exact ⟨tl, hrep.tail⟩

omit [DecidableEq Q] in
/-- INTERNAL: nothing happened. -/
theorem Rely.refl (hI : SharedInv own s) (u : Tid) : Rely own own u s s where
  priv _ ha := ⟨ha, rfl⟩
  queue q Q₁ hQ := ⟨Q₁, hQ, fun h => ⟨h, rfl⟩, fun h => ⟨h, rfl, fun _ _ => rfl⟩⟩
  tailMut q Q₂ hQ h := ⟨Q₂, hQ, h⟩
  front q Q₁ Q₂ h₁ h₂ _ := by
    obtain rfl : Q₁ = Q₂ := by simpa using h₁.symm.trans h₂
    obtain ⟨tl, htl⟩ := hI.tail_isSome h₁
    exact ⟨fun a ha => ⟨ha, fun _ => rfl⟩, tl, htl, .inl htl⟩

omit [DecidableEq Q] in
/-- INTERNAL: a step that leaves the shared state alone. -/
theorem guarantee_of_local {p p' : Pc Q T}
    (h : ∀ own, SharedInv own s → assertion own t p s → assertion own t p' s) :
    Guarantee t p s p' s :=
  fun own hI hp => ⟨own, ⟨hI, fun u _ => .refl hI u⟩, h own hI hp⟩

/-- Mutexes, the condition variable and the interrupt flag of `q` change; a mutex changes
hands only between `t` and nobody. -/
theorem sync_effect (hI : SharedInv own s) (hQ : s.queues q = some Q₁)
    (hhd : Q₂.mHead = Q₁.mHead) (htl : Q₂.mTail = Q₁.mTail)
    (hmh : ∀ u, u ≠ t → Q₁.mHeadMut = some u → Q₂.mHeadMut = some u)
    (hmt : ∀ u, u ≠ t → (Q₁.mTailMut = some u ↔ Q₂.mTailMut = some u))
    (hquiet : Q₂.mTailMut = none → ∀ tl, Q₁.mTail = some tl → s.heap tl = some .fresh) :
    Admissible own own t s (s.setQueue q Q₂) := by
  refine ⟨⟨fun q' Q' hQ' => ?_, fun q' Q' tl hQ' hm htl' => ?_, hI.live⟩, fun u hu => ⟨?_, ?_, ?_, ?_⟩⟩
  · by_cases hq : q' = q
    · subst hq
      obtain rfl : Q₂ = Q' := by simpa using hQ'
      obtain ⟨hd, tl, xs, hrep⟩ := hI.rep q' Q₁ hQ
      exact ⟨hd, tl, xs, hrep.frame hrep.owned (fun _ _ => rfl) hhd htl⟩
    · exact hI.rep q' Q' (by simpa [Function.update_of_ne hq] using hQ')
  · by_cases hq : q' = q
    · subst hq
      obtain rfl : Q₂ = Q' := by simpa using hQ'
      exact hquiet hm tl (htl.symm.trans htl')
    · exact hI.quiet q' Q' tl (by simpa [Function.update_of_ne hq] using hQ') hm htl'
  · exact fun a ha => ⟨ha, rfl⟩
  · intro q' Q' hQ'
    by_cases hq : q' = q
    · subst hq
      obtain rfl : Q₁ = Q' := by simpa using hQ.symm.trans hQ'
      exact ⟨Q₂, by simp, fun h => ⟨hmh u hu h, hhd⟩,
        fun h => ⟨(hmt u hu).mp h, htl, fun _ _ => rfl⟩⟩
    · exact ⟨Q', by simpa [Function.update_of_ne hq] using hQ', fun h => ⟨h, rfl⟩,
        fun h => ⟨h, rfl, fun _ _ => rfl⟩⟩
  · intro q' Q' hQ' hm
    by_cases hq : q' = q
    · subst hq
      obtain rfl : Q₂ = Q' := by simpa using hQ'
      exact ⟨Q₁, hQ, (hmt u hu).mpr hm⟩
    · exact ⟨Q', by simpa [Function.update_of_ne hq] using hQ', hm⟩
  · intro q' Q' Q'' hQ' hQ'' _
    refine ⟨fun a ha => ⟨ha, fun _ => rfl⟩, ?_⟩
    obtain ⟨tl, htl'⟩ := hI.tail_isSome hQ'
    refine ⟨tl, ?_, .inl htl'⟩
    by_cases hq : q' = q
    · subst hq
      obtain rfl : Q₁ = Q' := by simpa using hQ.symm.trans hQ'
      obtain rfl : Q₂ = Q'' := by simpa using hQ''
      exact htl.trans htl'
    · obtain rfl : Q' = Q'' := by simpa [Function.update_of_ne hq, hQ'] using hQ''
      exact htl'

omit [DecidableEq Q] in
/-- Thread `t` allocates `a` and writes its own nodes. -/
theorem private_effect (hI : SharedInv own s) {a : Addr} (ha : s.heap a = none)
    (hqueues : s'.queues = s.queues)
    (hheap : ∀ b, b ≠ a → own b ≠ some (.thread t) → s'.heap b = s.heap b)
    (hlive : ∀ b, b = a ∨ own b = some (.thread t) → (s'.heap b).isSome) :
    Admissible own (Function.update own a (some (.thread t))) t s s' := by
  have hnone := hI.owner_eq_none ha
  -- a node of somebody else is neither `a` nor written
  have hother : ∀ b o, own b = some o → o ≠ .thread t →
      Function.update own a (some (.thread t)) b = some o ∧ s'.heap b = s.heap b := by
    intro b o hb ho
    have hba : b ≠ a := by rintro rfl; simp [hnone] at hb
    exact ⟨by simpa [Function.update_of_ne hba] using hb,
      hheap b hba fun h => ho (by simpa using hb.symm.trans h)⟩
  refine ⟨⟨fun q' Q' hQ' => ?_, fun q' Q' tl hQ' hm htl => ?_, fun b o hb => ?_⟩,
    fun u hu => ⟨?_, ?_, ?_, ?_⟩⟩
  · obtain ⟨hd, tl, xs, hrep⟩ := hI.rep q' Q' (hqueues ▸ hQ')
    exact ⟨hd, tl, xs, hrep.frame (fun b hb => (hother b _ (hrep.owned b hb) (by simp)).1)
      (fun b hb => (hother b _ (hrep.owned b (by simp [hb])) (by simp)).2) rfl rfl⟩
  · rw [hqueues] at hQ'
    rw [(hother tl _ (hI.owned_tail hQ' htl) (by simp)).2]
    exact hI.quiet q' Q' tl hQ' hm htl
  · by_cases hba : b = a
    · exact hlive b (.inl hba)
    · rw [Function.update_of_ne hba] at hb
      by_cases ho : own b = some (.thread t)
      · exact hlive b (.inr ho)
      · rw [hheap b hba ho]
        exact hI.live b o hb
  · exact fun b hb => hother b _ hb (by simpa using hu)
  · intro q' Q' hQ'
    refine ⟨Q', hqueues ▸ hQ', fun h => ⟨h, rfl⟩, fun h => ⟨h, rfl, fun tl htl => ?_⟩⟩
    exact (hother tl _ (hI.owned_tail hQ' htl) (by simp)).2
  · exact fun q' Q' hQ' hm => ⟨Q', hqueues ▸ hQ', hm⟩
  · intro q' Q' Q'' hQ' hQ'' _
    obtain rfl : Q' = Q'' := by simpa [hqueues, hQ'] using hQ''
    obtain ⟨tl, htl⟩ := hI.tail_isSome hQ'
    exact ⟨fun b hb => ⟨(hother b _ hb (by simp)).1, fun _ => (hother b _ hb (by simp)).2⟩,
      tl, htl, .inl htl⟩

omit [DecidableEq Q] in
/-- Thread `t` owns `m_tail_mut` of `q` and writes the last node. -/
theorem tailWrite_effect (hI : SharedInv own s) (hQ : s.queues q = some Q₁)
    (hm : Q₁.mTailMut = some t) {tl : Addr} (htl : Q₁.mTail = some tl) (nd : Node T) :
    Admissible own own t s (s.setNode tl nd) := by
  have htlq := hI.owned_tail hQ htl
  have hother : ∀ b o, own b = some o → o ≠ .queue q →
      (s.setNode tl nd).heap b = s.heap b := by
    intro b o hb ho
    refine Function.update_of_ne ?_ _ _
    rintro rfl
    exact ho (by simpa using hb.symm.trans htlq)
  -- the tail of a queue whose tail mutex `t` does not own is another node
  have htails : ∀ q' Q' tl', s.queues q' = some Q' → Q'.mTailMut ≠ some t →
      Q'.mTail = some tl' → (s.setNode tl nd).heap tl' = s.heap tl' := by
    intro q' Q' tl' hQ' hm' htl'
    refine hother tl' _ (hI.owned_tail hQ' htl') ?_
    intro hEq
    obtain rfl : q' = q := by simpa using hEq
    obtain rfl : Q₁ = Q' := by simpa using hQ.symm.trans hQ'
    exact hm' hm
  refine ⟨⟨fun q' Q' hQ' => ?_, fun q' Q' tl' hQ' hm' htl' => ?_, fun b o hb => ?_⟩,
    fun u hu => ⟨?_, ?_, ?_, ?_⟩⟩
  · obtain ⟨hd, tl', xs, hrep⟩ := hI.rep q' Q' hQ'
    refine ⟨hd, tl', xs, hrep.frame hrep.owned (fun b hb => ?_) rfl rfl⟩
    refine Function.update_of_ne ?_ _ _
    rintro rfl
    obtain rfl : q = q' := by simpa using htlq.symm.trans (hrep.owned b (by simp [hb]))
    obtain rfl : Q₁ = Q' := by simpa using hQ.symm.trans hQ'
    obtain rfl : b = tl' := by simpa using htl.symm.trans hrep.tail
    exact hrep.tail_notMem hb
  · rw [htails q' Q' tl' hQ' (by simp [hm']) htl']
    exact hI.quiet q' Q' tl' hQ' hm' htl'
  · by_cases hb' : b = tl
    · simp [hb']
    · simpa [Function.update_of_ne hb'] using hI.live b o hb
  · exact fun b hb => ⟨hb, hother b _ hb (by simp)⟩
  · intro q' Q' hQ'
    refine ⟨Q', hQ', fun h => ⟨h, rfl⟩, fun h => ⟨h, rfl, fun tl' htl' => ?_⟩⟩
    exact htails q' Q' tl' hQ' (by simpa [h] using hu) htl'
  · exact fun q' Q' hQ' hm' => ⟨Q', hQ', hm'⟩
  · intro q' Q' Q'' hQ' hQ'' _
    obtain rfl : Q' = Q'' := by simpa [hQ'] using hQ''
    obtain ⟨tl', htl'⟩ := hI.tail_isSome hQ'
    refine ⟨fun b hb => ⟨hb, fun hne => ?_⟩, tl', htl', .inl htl'⟩
    refine Function.update_of_ne ?_ _ _
    rintro rfl
    obtain rfl : q = q' := by simpa using htlq.symm.trans hb
    obtain rfl : Q₁ = Q' := by simpa using hQ.symm.trans hQ'
    exact hne htl

/-- The nodes of thread `t` become nodes of `q`. -/
def Owners.give (own : Owners Tid Q) (t : Tid) (q : Q) [DecidableEq Tid] : Owners Tid Q :=
  fun a => match own a with
    | some (.thread u) => if u = t then some (.queue q) else some (.thread u)
    | o => o

omit [DecidableEq Q] in
theorem Owners.give_self [DecidableEq Tid] {a : Addr} (h : own a = some (.thread t)) :
    own.give t q a = some (.queue q) := by
  simp [give, h]

omit [DecidableEq Q] in
theorem Owners.give_of_ne [DecidableEq Tid] {a : Addr} (h : own a ≠ some (.thread t)) :
    own.give t q a = own a := by
  unfold give
  split
  · rename_i u hu
    rw [if_neg (by rintro rfl; exact h hu), hu]
  · rfl

omit [DecidableEq Q] in
theorem Owners.give_isSome [DecidableEq Tid] {a : Addr} {o : Owner Tid Q}
    (h : own.give t q a = some o) : ∃ o', own a = some o' := by
  by_cases ht : own a = some (.thread t)
  · exact ⟨_, ht⟩
  · exact ⟨o, (Owners.give_of_ne ht).symm.trans h⟩

/-- Thread `t` owns `m_tail_mut` of `q` and has linked its nodes behind the last one:
moving `m_tail` makes them part of the queue. -/
theorem append_effect [DecidableEq Tid] (hI : SharedInv own s) (hQ : s.queues q = some Q₁)
    (hm : Q₁.mTailMut = some t) {tl first last : Addr} {v : T} {ys : List Addr}
    (htl : Q₁.mTail = some tl) (hnd : s.heap tl = some ⟨some v, some first, true⟩)
    (hsub : SubRep own s.heap t first last ys) :
    Admissible own (own.give t q) t s (s.setQueue q { Q₁ with mTail := some last }) := by
  have hgive : ∀ b o, own b = some o → o ≠ .thread t → own.give t q b = some o :=
    fun b o hb ho => (Owners.give_of_ne fun h => ho (by simpa using hb.symm.trans h)).trans hb
  refine ⟨⟨fun q' Q' hQ' => ?_, fun q' Q' tl' hQ' hm' htl' => ?_, fun b o hb => ?_⟩,
    fun u hu => ⟨?_, ?_, ?_, ?_⟩⟩
  · by_cases hq : q' = q
    · subst hq
      obtain rfl : { Q₁ with mTail := some last } = Q' := by simpa using hQ'
      obtain ⟨hd, tl', xs, hrep⟩ := hI.rep q' Q₁ hQ
      obtain rfl : tl = tl' := by simpa using htl.symm.trans hrep.tail
      refine ⟨hd, last, xs ++ tl :: ys, hrep.head, rfl, ?_, ?_, fun b hb => ?_, fun b hb => ?_⟩
      · exact hrep.path.append (.cons (by simp [nextOf, hnd]) hsub.path)
      · rw [show (xs ++ tl :: ys) ++ [last] = (xs ++ [tl]) ++ (ys ++ [last]) by simp,
          List.nodup_append]
        refine ⟨hrep.nodup, hsub.nodup, fun b hb c hc hbc => ?_⟩
        have := (hrep.owned b hb).symm.trans (hbc ▸ hsub.owned c hc)
        simp at this
      · rw [show (xs ++ tl :: ys) ++ [last] = (xs ++ [tl]) ++ (ys ++ [last]) by simp,
          List.mem_append] at hb
        rcases hb with hb | hb
        · exact hgive b _ (hrep.owned b hb) (by simp)
        · exact Owners.give_self (hsub.owned b hb)
      · rcases List.mem_append.mp hb with hb | hb
        · exact hrep.filled b hb
        · rcases List.mem_cons.mp hb with rfl | hb
          · exact ⟨_, v, hnd, rfl, rfl⟩
          · exact hsub.filled b hb
    · obtain ⟨hd, tl', xs, hrep⟩ :=
        hI.rep q' Q' (by simpa [Function.update_of_ne hq] using hQ')
      exact ⟨hd, tl', xs, hrep.frame (fun b hb => hgive b _ (hrep.owned b hb) (by simp))
        (fun _ _ => rfl) rfl rfl⟩
  · by_cases hq : q' = q
    · subst hq
      obtain rfl : { Q₁ with mTail := some last } = Q' := by simpa using hQ'
      simp [hm] at hm'
    · exact hI.quiet q' Q' tl' (by simpa [Function.update_of_ne hq] using hQ') hm' htl'
  · obtain ⟨o', ho'⟩ := Owners.give_isSome hb
    exact hI.live b o' ho'
  · exact fun b hb => ⟨hgive b _ hb (by simpa using hu), rfl⟩
  · intro q' Q' hQ'
    by_cases hq : q' = q
    · subst hq
      obtain rfl : Q₁ = Q' := by simpa using hQ.symm.trans hQ'
      refine ⟨{ Q₁ with mTail := some last }, by simp, fun h => ⟨h, rfl⟩, fun h => ?_⟩
      exact absurd (by simpa using h.symm.trans hm) hu
    · exact ⟨Q', by simpa [Function.update_of_ne hq] using hQ', fun h => ⟨h, rfl⟩,
        fun h => ⟨h, rfl, fun _ _ => rfl⟩⟩
  · intro q' Q' hQ' hm'
    by_cases hq : q' = q
    · subst hq
      obtain rfl : { Q₁ with mTail := some last } = Q' := by simpa using hQ'
      exact ⟨Q₁, hQ, hm'⟩
    · exact ⟨Q', by simpa [Function.update_of_ne hq] using hQ', hm'⟩
  · intro q' Q' Q'' hQ' hQ'' _
    refine ⟨fun b hb => ⟨hgive b _ hb (by simp), fun _ => rfl⟩, ?_⟩
    by_cases hq : q' = q
    · subst hq
      obtain rfl : { Q₁ with mTail := some last } = Q'' := by simpa using hQ''
      exact ⟨last, rfl, .inr (by simp [hsub.owned last (by simp)])⟩
    · obtain rfl : Q' = Q'' := by simpa [Function.update_of_ne hq, hQ'] using hQ''
      obtain ⟨tl', htl'⟩ := hI.tail_isSome hQ'
      exact ⟨tl', htl', .inl htl'⟩

/-- Thread `t` owns `m_head_mut` of `q` and deletes the first node, which is not the
last. -/
theorem unlink_effect (hI : SharedInv own s) (hQ : s.queues q = some Q₁)
    (hm : Q₁.mHeadMut = some t) {h : Addr} {nd : Node T} (hhd : Q₁.mHead = some h)
    (hne : Q₁.mHead ≠ Q₁.mTail) (hnd : s.heap h = some nd) :
    Admissible own (Function.update own h none) t s
      ((s.freeNode h).setQueue q { Q₁ with mHead := nd.mNext }) := by
  obtain ⟨hd, tl, xs, hrep⟩ := hI.rep q Q₁ hQ
  obtain rfl : h = hd := by simpa using hhd.symm.trans hrep.head
  have hhtl : h ≠ tl := fun hEq => hne (by rw [hhd, hrep.tail, hEq])
  obtain ⟨c, xs', rfl, hnext, hpath⟩ := hrep.path.head_mem hhtl
  have hc : nd.mNext = some c := by simpa [nextOf, hnd] using hnext
  have hhq : own h = some (.queue q) := hrep.owned h (by simp)
  have hnodup := hrep.nodup
  rw [List.cons_append, List.nodup_cons] at hnodup
  have hkeep : ∀ b o, own b = some o → o ≠ .queue q →
      Function.update own h none b = some o ∧
        Function.update s.heap h none b = s.heap b := by
    intro b o hb ho
    have hbh : b ≠ h := by rintro rfl; exact ho (by simpa using hb.symm.trans hhq)
    exact ⟨by rwa [Function.update_of_ne hbh], Function.update_of_ne hbh _ _⟩
  have htail : ∀ q' Q' tl', s.queues q' = some Q' → Q'.mTail = some tl' → tl' ≠ h := by
    rintro q' Q' tl' hQ' htl' rfl
    obtain rfl : q' = q := by simpa using (hI.owned_tail hQ' htl').symm.trans hhq
    obtain rfl : Q₁ = Q' := by simpa using hQ.symm.trans hQ'
    exact hhtl (by simpa using htl'.symm.trans hrep.tail)
  refine ⟨⟨fun q' Q' hQ' => ?_, fun q' Q' tl' hQ' hm' htl' => ?_, fun b o hb => ?_⟩,
    fun u hu => ⟨?_, ?_, ?_, ?_⟩⟩
  · by_cases hq : q' = q
    · subst hq
      obtain rfl : { Q₁ with mHead := nd.mNext } = Q' := by simpa using hQ'
      have hxs : ∀ b ∈ xs' ++ [tl], b ≠ h := by
        rintro b hb rfl
        exact hnodup.1 hb
      refine ⟨c, tl, xs', hc, hrep.tail, ?_, hnodup.2, fun b hb => ?_, fun b hb => ?_⟩
      · exact hpath.congr fun b hb =>
          nextOf_congr (Function.update_of_ne (hxs b (by simp [hb])) _ _)
      · rw [Function.update_of_ne (hxs b hb)]
        exact hrep.owned b (List.mem_cons_of_mem _ hb)
      · exact (hrep.filled b (by simp [hb])).congr
          (Function.update_of_ne (hxs b (by simp [hb])) _ _)
    · obtain ⟨hd', tl', ys, hrep'⟩ :=
        hI.rep q' Q' (by simpa [Function.update_of_ne hq] using hQ')
      have hqq : (Owner.queue q' : Owner Tid Q) ≠ .queue q := by simpa using hq
      exact ⟨hd', tl', ys, hrep'.frame (fun b hb => (hkeep b _ (hrep'.owned b hb) hqq).1)
        (fun b hb => (hkeep b _ (hrep'.owned b (by simp [hb])) hqq).2) rfl rfl⟩
  · have hQold : ∃ Q'', s.queues q' = some Q'' ∧ Q''.mTailMut = none ∧ Q''.mTail = some tl' := by
      by_cases hq : q' = q
      · subst hq
        obtain rfl : { Q₁ with mHead := nd.mNext } = Q' := by simpa using hQ'
        exact ⟨Q₁, hQ, hm', htl'⟩
      · exact ⟨Q', by simpa [Function.update_of_ne hq] using hQ', hm', htl'⟩
    obtain ⟨Q'', hQ'', hm'', htl''⟩ := hQold
    simp only [Shared.setQueue_heap, Shared.freeNode_heap,
      Function.update_of_ne (htail q' Q'' tl' hQ'' htl'')]
    exact hI.quiet q' Q'' tl' hQ'' hm'' htl''
  · by_cases hbh : b = h
    · simp [hbh] at hb
    · rw [Function.update_of_ne hbh] at hb
      simpa [Function.update_of_ne hbh] using hI.live b o hb
  · exact fun b hb => hkeep b _ hb (by simp)
  · intro q' Q' hQ'
    have hheap : ∀ tl', Q'.mTail = some tl' →
        Function.update s.heap h none tl' = s.heap tl' := fun tl' htl' =>
      Function.update_of_ne (htail q' Q' tl' hQ' htl') _ _
    by_cases hq : q' = q
    · subst hq
      obtain rfl : Q₁ = Q' := by simpa using hQ.symm.trans hQ'
      refine ⟨{ Q₁ with mHead := nd.mNext }, by simp, fun hu' => ?_, fun hu' => ⟨hu', rfl, hheap⟩⟩
      exact absurd (by simpa using hu'.symm.trans hm) hu
    · exact ⟨Q', by simpa [Function.update_of_ne hq] using hQ', fun h => ⟨h, rfl⟩,
        fun h => ⟨h, rfl, hheap⟩⟩
  · intro q' Q' hQ' hm'
    by_cases hq : q' = q
    · subst hq
      obtain rfl : { Q₁ with mHead := nd.mNext } = Q' := by simpa using hQ'
      exact ⟨Q₁, hQ, hm'⟩
    · exact ⟨Q', by simpa [Function.update_of_ne hq] using hQ', hm'⟩
  · intro q' Q' Q'' hQ' hQ'' hmu
    have hq : q' ≠ q := by
      rintro rfl
      obtain rfl : Q₁ = Q' := by simpa using hQ.symm.trans hQ'
      exact hu (by simpa using hmu.symm.trans hm)
    obtain rfl : Q' = Q'' := by simpa [Function.update_of_ne hq, hQ'] using hQ''
    obtain ⟨tl', htl'⟩ := hI.tail_isSome hQ'
    have hqq : (Owner.queue q' : Owner Tid Q) ≠ .queue q := by simpa using hq
    exact ⟨fun b hb => ⟨(hkeep b _ hb hqq).1, fun _ => (hkeep b _ hb hqq).2⟩,
      tl', htl', .inl htl'⟩

/-- A new queue with the fresh node `a`. -/
theorem create_effect (hI : SharedInv own s) (hq : s.queues q = none) {a : Addr}
    (ha : s.heap a = none) :
    Admissible own (Function.update own a (some (.queue q))) t s
      ((s.setNode a .fresh).setQueue q ⟨none, none, [], false, some a, some a⟩) := by
  have hnone := hI.owner_eq_none ha
  have hkeep : ∀ b o, own b = some o →
      Function.update own a (some (.queue q)) b = some o ∧
        Function.update s.heap a (some .fresh) b = s.heap b := by
    intro b o hb
    have hba : b ≠ a := by rintro rfl; simp [hnone] at hb
    exact ⟨by rwa [Function.update_of_ne hba], Function.update_of_ne hba _ _⟩
  have hold : ∀ q' Q', s.queues q' = some Q' → q' ≠ q := by
    rintro q' Q' hQ' rfl
    simp [hq] at hQ'
  refine ⟨⟨fun q' Q' hQ' => ?_, fun q' Q' tl hQ' hm htl => ?_, fun b o hb => ?_⟩,
    fun u hu => ⟨?_, ?_, ?_, ?_⟩⟩
  · by_cases hqq : q' = q
    · subst hqq
      obtain rfl : (⟨none, none, [], false, some a, some a⟩ : Queue Tid) = Q' := by
        simpa using hQ'
      exact ⟨a, a, [], rfl, rfl, .nil a, by simp, by simp, by simp⟩
    · obtain ⟨hd, tl, xs, hrep⟩ :=
        hI.rep q' Q' (by simpa [Function.update_of_ne hqq] using hQ')
      exact ⟨hd, tl, xs, hrep.frame (fun b hb => (hkeep b _ (hrep.owned b hb)).1)
        (fun b hb => (hkeep b _ (hrep.owned b (by simp [hb]))).2) rfl rfl⟩
  · by_cases hqq : q' = q
    · subst hqq
      obtain rfl : (⟨none, none, [], false, some a, some a⟩ : Queue Tid) = Q' := by
        simpa using hQ'
      obtain rfl : a = tl := by simpa using htl
      simp
    · have hQ'' : s.queues q' = some Q' := by simpa [Function.update_of_ne hqq] using hQ'
      exact (hkeep tl _ (hI.owned_tail hQ'' htl)).2.trans (hI.quiet q' Q' tl hQ'' hm htl)
  · by_cases hba : b = a
    · simp [hba]
    · rw [Function.update_of_ne hba] at hb
      simpa [Function.update_of_ne hba] using hI.live b o hb
  · exact fun b hb => hkeep b _ hb
  · intro q' Q' hQ'
    exact ⟨Q', by simpa [Function.update_of_ne (hold q' Q' hQ')] using hQ', fun h => ⟨h, rfl⟩,
      fun h => ⟨h, rfl, fun tl htl => (hkeep tl _ (hI.owned_tail hQ' htl)).2⟩⟩
  · intro q' Q' hQ' hm
    by_cases hqq : q' = q
    · subst hqq
      obtain rfl : (⟨none, none, [], false, some a, some a⟩ : Queue Tid) = Q' := by
        simpa using hQ'
      simp at hm
    · exact ⟨Q', by simpa [Function.update_of_ne hqq] using hQ', hm⟩
  · intro q' Q' Q'' hQ' hQ'' _
    obtain rfl : Q' = Q'' := by
      simpa [Function.update_of_ne (hold q' Q' hQ'), hQ'] using hQ''
    obtain ⟨tl, htl⟩ := hI.tail_isSome hQ'
    exact ⟨fun b hb => ⟨(hkeep b _ hb).1, fun _ => (hkeep b _ hb).2⟩, tl, htl, .inl htl⟩

/-- The nodes of `other` become nodes of `this`, those of `this` are gone, and `a` is the
node of `other`. -/
def Owners.move (own : Owners Tid Q) (this other : Q) (a : Addr) : Owners Tid Q :=
  fun b => if b = a then some (.queue other) else match own b with
    | some (.queue q) =>
      if q = other then some (.queue this) else if q = this then none else some (.queue q)
    | o => o

theorem Owners.move_self {this other : Q} {a : Addr} :
    own.move this other a a = some (.queue other) := by
  simp [move]

theorem Owners.move_other {this other : Q} {a b : Addr} (hba : b ≠ a)
    (h : own b = some (.queue other)) : own.move this other a b = some (.queue this) := by
  simp [move, hba, h]

theorem Owners.move_of_ne {this other : Q} {a b : Addr} {o : Owner Tid Q} (hba : b ≠ a)
    (h : own b = some o) (ho : o ≠ .queue other) (ho' : o ≠ .queue this) :
    own.move this other a b = some o := by
  cases o with
  | thread u => simp [move, hba, h]
  | queue q =>
    simp only [ne_eq, Owner.queue.injEq] at ho ho'
    simp [move, hba, h, ho, ho']

theorem Owners.move_eq_some {this other : Q} {a b : Addr} {o : Owner Tid Q} (hba : b ≠ a)
    (h : own.move this other a b = some o) :
    ∃ o', own b = some o' ∧ (this ≠ other → o' ≠ .queue this) := by
  unfold move at h
  rw [if_neg hba] at h
  split at h
  · rename_i q hq
    refine ⟨_, hq, fun hne hEq => ?_⟩
    obtain rfl : q = this := by simpa using hEq
    simp [hne] at h
  · rename_i o' hno
    refine ⟨o, h, fun _ hEq => ?_⟩
    exact hno this (hEq ▸ h)

/-- INTERNAL: the queue object found under a name after two were written. -/
theorem update_update_eq_some {queues : Q → Option (Queue Tid)} {this other q' : Q}
    {O D Q' : Queue Tid}
    (h : Function.update (Function.update queues other (some O)) this (some D) q' = some Q') :
    q' = this ∧ D = Q' ∨ q' = other ∧ O = Q' ∨ q' ≠ this ∧ q' ≠ other ∧ queues q' = some Q' := by
  by_cases h₁ : q' = this
  · subst h₁
    exact .inl ⟨rfl, by simpa using h⟩
  · rw [Function.update_of_ne h₁] at h
    by_cases h₂ : q' = other
    · subst h₂
      exact .inr (.inl ⟨rfl, by simpa using h⟩)
    · exact .inr (.inr ⟨h₁, h₂, by rwa [Function.update_of_ne h₂] at h⟩)

/-- Thread `t` owns the mutexes of `other`, and those of `this` if it exists already: the
nodes of `other` move to `this`, and `other` starts again with the fresh node `a`. -/
theorem transfer_effect (hI : SharedInv own s) {this other : Q} (hne : this ≠ other)
    {O D : Queue Tid} (hO : s.queues other = some O) (hOh : O.mHeadMut = some t)
    (hOt : O.mTailMut = some t) (hOfresh : ∀ tl, O.mTail = some tl → s.heap tl = some .fresh)
    (hthis : ∀ Q', s.queues this = some Q' → Q'.mHeadMut = some t ∧ Q'.mTailMut = some t)
    (hhd : D.mHead = O.mHead) (htl : D.mTail = O.mTail)
    (hDt : ∀ u, u ≠ t → D.mTailMut ≠ some u) {a : Addr}
    (ha : ∀ o, own a = some o → o = .queue this) {heap' : Addr → Option (Node T)}
    (hheap : ∀ b o, b ≠ a → own b = some o → o ≠ .queue this → heap' b = s.heap b)
    (hfresh : heap' a = some .fresh) :
    Admissible own (own.move this other a) t s
      ⟨heap', Function.update (Function.update s.queues other
        (some { O with mHead := some a, mTail := some a })) this (some D)⟩ := by
  have hne_a : ∀ b o, own b = some o → o ≠ .queue this → b ≠ a := by
    rintro b o hb ho rfl
    exact ho (ha o hb)
  have hkeep : ∀ b o, own b = some o → o ≠ .queue other → o ≠ .queue this →
      own.move this other a b = some o ∧ heap' b = s.heap b := fun b o hb ho ho' =>
    ⟨Owners.move_of_ne (hne_a b o hb ho') hb ho ho', hheap b o (hne_a b o hb ho') hb ho'⟩
  have hmove : ∀ b, own b = some (.queue other) →
      own.move this other a b = some (.queue this) ∧ heap' b = s.heap b := fun b hb =>
    have hba := hne_a b _ hb (by simpa using hne.symm)
    ⟨Owners.move_other hba hb, hheap b _ hba hb (by simpa using hne.symm)⟩
  have hkeepQ : ∀ b q', own b = some (.queue q') → q' ≠ this → q' ≠ other →
      own.move this other a b = some (.queue q') ∧ heap' b = s.heap b := fun b q' hb h₁ h₂ =>
    hkeep b _ hb (by simpa using h₂) (by simpa using h₁)
  -- a queue one of whose mutexes another thread owns is neither of the two
  have hthird : ∀ q' Q' u, s.queues q' = some Q' → u ≠ t →
      Q'.mHeadMut = some u ∨ Q'.mTailMut = some u → q' ≠ this ∧ q' ≠ other := by
    intro q' Q' u hQ' hu hm
    constructor
    · rintro rfl
      obtain ⟨h₁, h₂⟩ := hthis Q' hQ'
      rcases hm with hm | hm
      · exact hu (by simpa using hm.symm.trans h₁)
      · exact hu (by simpa using hm.symm.trans h₂)
    · rintro rfl
      obtain rfl : O = Q' := by simpa using hO.symm.trans hQ'
      rcases hm with hm | hm
      · exact hu (by simpa using hm.symm.trans hOh)
      · exact hu (by simpa using hm.symm.trans hOt)
  obtain ⟨hd, tl, xs, hrep⟩ := hI.rep other O hO
  refine ⟨⟨fun q' Q' hQ' => ?_, fun q' Q' tl' hQ' hm htl' => ?_, fun b o hb => ?_⟩,
    fun u hu => ⟨?_, ?_, ?_, ?_⟩⟩
  · rcases update_update_eq_some hQ' with ⟨rfl, rfl⟩ | ⟨rfl, rfl⟩ | ⟨h₁, h₂, hQ''⟩
    · refine ⟨hd, tl, xs, hhd.trans hrep.head, htl.trans hrep.tail, ?_, hrep.nodup, ?_, ?_⟩
      · exact hrep.path.congr fun b hb => nextOf_congr (hmove b (hrep.owned b (by simp [hb]))).2
      · exact fun b hb => (hmove b (hrep.owned b hb)).1
      · exact fun b hb => (hrep.filled b hb).congr (hmove b (hrep.owned b (by simp [hb]))).2
    · exact ⟨a, a, [], rfl, rfl, .nil a, by simp, by simp [Owners.move_self], by simp⟩
    · obtain ⟨hd', tl', ys, hrep'⟩ := hI.rep q' Q' hQ''
      exact ⟨hd', tl', ys, hrep'.frame (fun b hb => (hkeepQ b q' (hrep'.owned b hb) h₁ h₂).1)
        (fun b hb => (hkeepQ b q' (hrep'.owned b (by simp [hb])) h₁ h₂).2) rfl rfl⟩
  · rcases update_update_eq_some hQ' with ⟨rfl, rfl⟩ | ⟨rfl, rfl⟩ | ⟨h₁, h₂, hQ''⟩
    · have htlO : O.mTail = some tl' := htl.symm.trans htl'
      exact (hmove tl' (hI.owned_tail hO htlO)).2.trans (hOfresh tl' htlO)
    · obtain rfl : a = tl' := by simpa using htl'
      exact hfresh
    · exact (hkeepQ tl' q' (hI.owned_tail hQ'' htl') h₁ h₂).2.trans
        (hI.quiet q' Q' tl' hQ'' hm htl')
  · by_cases hba : b = a
    · simp [hba, hfresh]
    · obtain ⟨o', ho', hnot⟩ := Owners.move_eq_some hba hb
      show (heap' b).isSome
      rw [hheap b o' hba ho' (hnot hne)]
      exact hI.live b o' ho'
  · exact fun b hb => hkeep b _ hb (by simp) (by simp)
  · intro q' Q' hQ'
    by_cases hmu : Q'.mHeadMut = some u ∨ Q'.mTailMut = some u
    · obtain ⟨h₁, h₂⟩ := hthird q' Q' u hQ' hu hmu
      exact ⟨Q', by simpa [Function.update_of_ne h₁, Function.update_of_ne h₂] using hQ',
        fun h => ⟨h, rfl⟩,
        fun h => ⟨h, rfl, fun tl' htl' => (hkeepQ tl' q' (hI.owned_tail hQ' htl') h₁ h₂).2⟩⟩
    · have hsome : (Function.update (Function.update s.queues other
          (some { O with mHead := some a, mTail := some a })) this (some D) q').isSome := by
        by_cases h₁ : q' = this
        · simp [h₁]
        · by_cases h₂ : q' = other
          · subst h₂
            simp [Function.update_of_ne h₁]
          · simp [Function.update_of_ne h₁, Function.update_of_ne h₂, hQ']
      obtain ⟨Q'', hQ''⟩ := Option.isSome_iff_exists.mp hsome
      exact ⟨Q'', hQ'', fun h => absurd (.inl h) hmu, fun h => absurd (.inr h) hmu⟩
  · intro q' Q' hQ' hm
    rcases update_update_eq_some hQ' with ⟨rfl, rfl⟩ | ⟨rfl, rfl⟩ | ⟨h₁, h₂, hQ''⟩
    · exact absurd hm (hDt u hu)
    · exact absurd (by simpa using hm.symm.trans hOt) hu
    · exact ⟨Q', hQ'', hm⟩
  · intro q' Q' Q'' hQ' hQ'' hm
    obtain ⟨h₁, h₂⟩ := hthird q' Q' u hQ' hu (.inl hm)
    obtain rfl : Q' = Q'' := by
      simpa [Function.update_of_ne h₁, Function.update_of_ne h₂, hQ'] using hQ''
    obtain ⟨tl', htl'⟩ := hI.tail_isSome hQ'
    exact ⟨fun b hb => ⟨(hkeepQ b q' hb h₁ h₂).1, fun _ => (hkeepQ b q' hb h₁ h₂).2⟩,
      tl', htl', .inl htl'⟩

end UbuntuProjects.TsQueue
