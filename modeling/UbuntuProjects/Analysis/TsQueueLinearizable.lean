import UbuntuProjects.Analysis.TsQueueFifo

/-!
# `ts_queue` is linearizable

Each step of the queue is followed by at most one move at the sequence (`Follows`): the
calls and returns, the step that moves `m_tail`, the step at which a pop reads `m_tail`,
and the steps at which `clear` and `empty` begin and test. Together with the proof
outline this makes every run linearizable to `fifo` (`linearizable_run`).
-/

set_option autoImplicit false

namespace UbuntuProjects.TsQueue

open Concurrency

variable {Tid T : Type}

/-- The linked elements and the number of those being removed change in a way the other
threads do not mind: not at all, or elements are appended by the owner of `m_tail_mut`,
or the owner of `m_head_mut` changes them. -/
def Unobtrusive (t : Tid) (s : Shared Tid Unit T) (ws : List T) (d : ℕ) (ws' : List T) (d' : ℕ) :
    Prop :=
  (ws' = ws ∧ d' = d) ∨ (d' = d ∧ (∃ new, ws' = ws ++ new) ∧ ∃ nd, TailNode s t () nd) ∨
    HoldsHead s t ()

/-- A step of thread `t` is followed by at most one move at the sequence. -/
def Follows (t : Tid) (s : Shared Tid Unit T) (ws : List T) (d : ℕ) (p : Pc Unit T)
    (st : Status (Op Unit T) (Res T)) (l : Lab Unit T) (p' : Pc Unit T) (s' : Shared Tid Unit T) :
    Prop :=
  ∃ v st' ws' d', AtomicMove (fifo T) (ws.drop d) st v (ws'.drop d') st' ∧
    v.bind Point.event = l ∧ Contents s' () ws' ∧ d' ≤ ws'.length ∧ Tracked s' ws' d' p' st' ∧
    Unobtrusive t s ws d ws' d' ∧ (p'.removes ∨ d' = 0 ∨ d' = d ∧ ¬p.removes)

section Steps

variable {own own' : Owners Tid Unit} {t : Tid} {s s' : Shared Tid Unit T} {q : Unit} {ws : List T}
  {d : ℕ} {p p' : Pc Unit T} {st : Status (Op Unit T) (Res T)} {l : Lab Unit T} {Q₁ : Queue Tid}

/-- INTERNAL: nothing happens at the sequence. -/
theorem follows_stutter (hc : Contents s' () ws) (hd : d ≤ ws.length) (h : Tracked s' ws d p' st)
    (hrem : p'.removes ∨ d = 0 ∨ ¬p.removes) : Follows t s ws d p st none p' s' :=
  ⟨none, st, ws, d, .stutter _ _, rfl, hc, hd, h, .inl ⟨rfl, rfl⟩,
    hrem.imp_right fun h => h.imp_right fun h => ⟨rfl, h⟩⟩

/-- INTERNAL: an operation takes effect without changing the linked elements. -/
theorem follows_lin {op : Op Unit T} {r : Res T} {d' : ℕ} (hst : st = .pending op)
    (hc : Contents s' () ws) (hop : FifoStep (ws.drop d) op r (ws.drop d')) (hd' : d' ≤ ws.length)
    (h : Tracked s' ws d' p' (.done r)) (hu : d' = d ∨ HoldsHead s t ())
    (hrem : p'.removes ∨ d' = 0 ∨ d' = d ∧ ¬p.removes) : Follows t s ws d p st none p' s' := by
  subst hst
  exact ⟨some (.lin op r), _, ws, d', .lin hop, rfl, hc, hd', h,
    hu.elim (fun h => .inl ⟨rfl, h⟩) fun h => .inr (.inr h), hrem⟩

/-! ## Clients -/

/-- INTERNAL: a thread that starts an operation. -/
theorem tracked_entry {op : Op Unit T} (h : op.ofFifo) : Tracked s ws d op.entry (.pending op) := by
  cases op with
  | emplace => rfl
  | pushRange => exact ⟨h, rfl⟩
  | take => exact ⟨h, rfl⟩
  | locked => exact ⟨h, rfl⟩
  | create | notify | stopWaitings => exact h.elim

theorem tracked_afterPush (n : Notify) : Tracked s ws d (afterPush q n) (.done .unit) := by
  cases n <;> rfl

theorem clientStep_follows [DecidableEq Tid] (hI : SharedInv own s) (hc : Contents s () ws)
    (hd : d ≤ ws.length) (hcall : ∀ op, l = some (.call op) → op.ofFifo)
    (h : Tracked s ws d p st) (hs : ClientStep t p s l p' s') :
    Follows t s ws d p st l p' s' := by
  have hc' := clientStep_contents hI hs hc
  cases hs with
  | call s op =>
    obtain rfl : st = .idle := h
    exact ⟨some (.call op), _, ws, d, .call _ op, rfl, hc, hd, tracked_entry (hcall op rfl),
      .inl ⟨rfl, rfl⟩, .inr (.inr ⟨rfl, id⟩)⟩
  | ret s r =>
    obtain rfl : st = .done r := h
    exact ⟨some (.ret r), _, ws, d, .ret _ r, rfl, hc, hd, rfl, .inl ⟨rfl, rfl⟩,
      .inr (.inr ⟨rfl, id⟩)⟩
  | notifyOne | notifyNobody | notifyAll => exact follows_stutter hc' hd h (.inr (.inr id))
  | create | lockStop | setStop | unlockStop => exact h.elim

/-! ## Pushers -/

/-- INTERNAL: a single private node holds nothing yet. -/
theorem subStores_single (heap : Addr → Option (Node T)) (a : Addr) : SubStores heap a a [] :=
  ⟨[], .nil a, .nil⟩

/-- INTERNAL: the loop of `push_range` adds one element. -/
theorem SubStores.grow {heap : Addr → Option (Node T)} {first last a : Addr} {x : T} {xs : List T}
    {ys : List Addr} (h : SubStores heap first last xs) (hsub : SubRep own heap t first last ys)
    (ha : heap a = none) :
    SubStores (Function.update (Function.update heap last (some ⟨some x, some a, true⟩)) a
      (some .fresh)) first a (xs ++ [x]) := by
  obtain ⟨ys', hp, hv⟩ := h
  obtain rfl := hsub.unique hp
  have hla : last ≠ a := by
    rintro rfl
    simp [hsub.fresh] at ha
  have hx : ∀ b ∈ ys', Function.update (Function.update heap last (some ⟨some x, some a, true⟩)) a
      (some .fresh) b = heap b := by
    intro b hb
    have hba : b ≠ a := by
      rintro rfl
      have hlive := hp.next_isSome hb
      simp [nextOf, ha] at hlive
    have hbl : b ≠ last := by
      rintro rfl
      exact hsub.last_notMem hp hb
    rw [Function.update_of_ne hba, Function.update_of_ne hbl]
  have hlast : Function.update (Function.update heap last (some ⟨some x, some a, true⟩)) a
      (some .fresh) last = some ⟨some x, some a, true⟩ := by
    rw [Function.update_of_ne hla, Function.update_self]
  refine ⟨ys' ++ [last], ?_, List.rel_append (forall₂_stores_congr hv hx) (.cons ⟨_, hlast, rfl⟩ .nil)⟩
  exact (hp.congr fun b hb => nextOf_congr (hx b hb)).snoc (by simp [nextOf, hlast])

/-- INTERNAL: writing the last node of the queue leaves a private chain alone. -/
theorem SubStores.tailWrite {first last tl : Addr} {xs : List T}
    (h : SubStores s.heap first last xs) (hI : SharedInv own s) (hQ : s.queues q = some Q₁)
    (htl : Q₁.mTail = some tl) (hsub : ∃ ys, SubRep own s.heap t first last ys) (nd : Node T) :
    SubStores (s.setNode tl nd).heap first last xs := by
  obtain ⟨ys, hsub⟩ := hsub
  refine h.frame hsub fun a ha => Function.update_of_ne ?_ _ _
  rintro rfl
  simp [hI.owned_tail hQ htl] at ha

/-- INTERNAL: the value in the last node. -/
theorem TailStores.data {v : T} {tl : Addr} {nd : Node T} (h : TailStores s q v)
    (hQ : s.queues q = some Q₁) (htl : Q₁.mTail = some tl) (hnd : s.heap tl = some nd) :
    nd.data = some v := by
  obtain ⟨Q₂, tl₂, hQ₂, htl₂, nd₂, hnd₂, hv⟩ := h
  obtain rfl : Q₁ = Q₂ := by simpa using hQ.symm.trans hQ₂
  obtain rfl : tl = tl₂ := by simpa using htl.symm.trans htl₂
  obtain rfl : nd = nd₂ := by simpa using hnd.symm.trans hnd₂
  exact hv

/-- INTERNAL: what the pusher has appended is an operation of the sequence. -/
theorem Appends.fifoStep {op : Op Unit T} {vs : List T} (h : Appends op vs) (ws : List T) :
    FifoStep ws op .unit (ws ++ vs) := by
  rcases h with ⟨q, r, n, rfl, rfl⟩ | ⟨q, v, n, rfl, rfl⟩
  · exact .pushRange ws r n
  · exact .emplace ws v n

/-- INTERNAL: moving `m_tail` is the effect of a push. -/
theorem follows_append (hI : SharedInv own s) (hc : Contents s () ws) (hd : d ≤ ws.length)
    {sub : Sub} {n : Notify} (has : assertion own t (.moveTail q sub n : Pc Unit T) s)
    (h : Tracked s ws d (.moveTail q sub n) st) (hQ : s.queues q = some Q₁) :
    Follows t s ws d (.moveTail q sub n) st none (.unlockTail q n)
      (s.setQueue q { Q₁ with mTail := some sub.last }) := by
  obtain ⟨v, xs, op, htail, hxs, happ, rfl⟩ := h
  obtain ⟨v', htail', ys, hsub⟩ := has
  obtain ⟨tl, htl⟩ := hI.tail_isSome hQ
  have hnd := (htail'.of_queue hQ).2 tl htl
  obtain rfl : v = v' := by simpa using (htail.data hQ htl hnd).symm
  obtain ⟨ys', hp, hv⟩ := hxs
  obtain rfl := hsub.unique hp
  have hc' : Contents (s.setQueue q { Q₁ with mTail := some sub.last }) () (ws ++ v :: xs) :=
    contents_append hc hI hQ htl hnd hsub hv
  have hdrop : (ws ++ v :: xs).drop d = ws.drop d ++ v :: xs := List.drop_append_of_le_length hd
  refine ⟨some (.lin op .unit), .done .unit, ws ++ v :: xs, d, ?_, rfl, hc', ?_, rfl,
    .inr (.inl ⟨rfl, ⟨_, rfl⟩, _, htail'⟩), .inr (.inr ⟨rfl, id⟩)⟩
  · exact .lin (hdrop ▸ happ.fifoStep _)
  · simp only [List.length_append]
    omega

theorem pushStep_follows (hI : SharedInv own s) (hc : Contents s () ws) (hd : d ≤ ws.length)
    (has : assertion own t p s) (h : Tracked s ws d p st) (hs : PushStep t p s p' s') :
    Follows t s ws d p st none p' s' := by
  by_cases hmove : ∃ sub n, p = .moveTail () sub n
  · obtain ⟨sub, n, rfl⟩ := hmove
    cases hs with
    | @moveTail _ _ a _ Q' tl nd hQ htl hnd =>
      obtain ⟨v, htail, -⟩ := id has
      obtain rfl := by simpa using hnd.symm.trans ((htail.of_queue hQ).2 tl htl)
      exact follows_append hI hc hd has h hQ
    | moveTailRange hQ => exact follows_append hI hc hd has h hQ
  · have hc' := pushStep_contents hI has hs (fun _ sub n hEq => hmove ⟨sub, n, hEq⟩) hc
    cases hs with
    | makeNode ha =>
      obtain rfl : st = _ := h
      exact follows_stutter hc' hd
        ⟨[], _, subStores_single _ _, .inr ⟨_, _, _, rfl, rfl⟩, rfl⟩ (.inr (.inr id))
    | makeSubNil s q n =>
      refine follows_lin h.2 hc' ?_ hd (tracked_afterPush n) (.inl rfl) (.inr (.inr ⟨rfl, id⟩))
      simpa [Range.elements] using FifoStep.pushRange (ws.drop d) .nil n
    | makeSub ha =>
      obtain ⟨hmulti, rfl⟩ := h
      obtain rfl : _ = _ := hmulti
      exact follows_stutter hc' hd ⟨[], subStores_single _ _, rfl⟩ (.inr (.inr id))
    | copyRange hnd ha =>
      obtain ⟨xs, hxs, rfl⟩ := h
      obtain ⟨ys, hsub⟩ := has
      exact follows_stutter hc' hd ⟨_, hxs.grow hsub ha, by simp⟩ (.inr (.inr id))
    | copyRangeNil =>
      obtain ⟨xs, hxs, rfl⟩ := h
      rw [List.append_nil]
      exact follows_stutter hc' hd ⟨xs, _, hxs, .inl ⟨_, _, _, rfl, rfl⟩, rfl⟩ (.inr (.inr id))
    | lockTail hQ => exact follows_stutter hc' hd h (.inr (.inr id))
    | constructData hQ htl hnd =>
      obtain ⟨xs, op, hxs, hst⟩ := h
      exact follows_stutter hc' hd ⟨_, xs, op, ⟨_, _, hQ, htl, _, Function.update_self .., rfl⟩,
        hxs.tailWrite hI hQ htl has.2 _, hst⟩ (.inr (.inr id))
    | setInitialized hQ htl hnd | linkNext hQ htl hnd =>
      obtain ⟨v, xs, op, htail, hxs, hst⟩ := h
      obtain ⟨v', -, hsub⟩ := has
      exact follows_stutter hc' hd ⟨v, xs, op,
        ⟨_, _, hQ, htl, _, Function.update_self .., (htail.data hQ htl hnd :)⟩,
        hxs.tailWrite hI hQ htl hsub _, hst⟩ (.inr (.inr id))
    | unlockTail hQ =>
      obtain rfl : st = _ := h
      exact follows_stutter hc' hd (tracked_afterPush _) (.inr (.inr id))
    | moveTail | moveTailRange => exact absurd ⟨_, _, rfl⟩ hmove

/-! ## Poppers -/

/-- INTERNAL: the first element is unlinked; it has left the sequence before. -/
theorem follows_unlink {v : T} {ws' : List T} {d' : ℕ} (hws : ws = v :: ws') (hd : d = d' + 1)
    (hd' : d' ≤ ws'.length) (hc : Contents s' () ws') (h : Tracked s' ws' d' p' st)
    (hhead : HoldsHead s t ()) (hrem : p'.removes ∨ d' = 0) :
    Follows t s ws d p st none p' s' := by
  subst hws hd
  exact ⟨none, st, ws', d', .stutter _ _, rfl, hc, hd', h, .inr (.inr hhead),
    hrem.imp_right .inl⟩

section Front

variable {pt : Addr} {m : ℕ}

theorem FrontLength.eq_zero_iff (h : FrontLength s q pt m) (hQ : s.queues q = some Q₁) :
    Q₁.mHead = some pt ↔ m = 0 := by
  obtain ⟨Q₂, hd, front, hQ₂, hhd, hp, hpt, rfl⟩ := h
  obtain rfl : Q₁ = Q₂ := by simpa using hQ.symm.trans hQ₂
  rw [hhd, List.length_eq_zero_iff]
  constructor
  · intro hEq
    obtain rfl : hd = pt := by simpa using hEq
    cases front with
    | nil => rfl
    | cons x xs =>
      obtain ⟨rfl, -⟩ := Path.cons_iff.mp hp
      exact absurd (by simp) hpt
  · rintro rfl
    rw [Path.nil_iff.mp hp]

theorem FrontLength.setQueue {Q₂ : Queue Tid} (h : FrontLength s q pt m)
    (hQ : s.queues q = some Q₁) (hhd : Q₂.mHead = Q₁.mHead) :
    FrontLength (s.setQueue q Q₂) q pt m := by
  obtain ⟨Q', hd, front, hQ', hhd', hp⟩ := h
  obtain rfl : Q₁ = Q' := by simpa using hQ.symm.trans hQ'
  exact ⟨Q₂, hd, front, Shared.setQueue_self .., hhd.trans hhd', hp⟩

/-- INTERNAL: the tail that is read lies behind all elements. -/
theorem Contents.frontLength (hc : Contents s q ws) (hQ : s.queues q = some Q₁)
    (hpt : Q₁.mTail = some pt) : FrontLength s q pt ws.length := by
  obtain ⟨Q₂, hd, tl, xs, hsp, hv⟩ := hc
  obtain rfl : Q₁ = Q₂ := by simpa using hQ.symm.trans hsp.queue
  obtain rfl : pt = tl := by simpa using hpt.symm.trans hsp.tail
  exact ⟨Q₁, hd, xs, hQ, hsp.head, hsp.path, hsp.tail_notMem, hv.length_eq⟩

/-- INTERNAL: after the first node is gone, one node less is before the tail. -/
theorem FrontLength.unlink {h : Addr} {nd : Node T} (hm : FrontLength s q pt (m + 1))
    (ha : IsAhead own s t q pt) (hQ : s.queues q = some Q₁) (hhd : Q₁.mHead = some h)
    (hnd : s.heap h = some nd) :
    FrontLength ((s.freeNode h).setQueue q { Q₁ with mHead := nd.mNext }) q pt m := by
  obtain ⟨Q₂, hd, tl, front, ha, hlen⟩ := hm.ahead ha
  obtain rfl : Q₁ = Q₂ := by simpa using hQ.symm.trans ha.queue
  obtain rfl : h = hd := by simpa using hhd.symm.trans ha.head
  have hne : h ≠ pt := by
    rintro rfl
    obtain ⟨x, xs, rfl⟩ := List.exists_cons_of_length_eq_add_one hlen
    obtain ⟨rfl, -⟩ := Path.cons_iff.mp ha.path
    have hnd := ha.nodup
    simp at hnd
  obtain ⟨c, rest, rfl, hn, hp, -⟩ := ha.cons hne
  have hnodup := ha.nodup
  rw [List.cons_append, List.nodup_cons] at hnodup
  refine ⟨_, c, rest, Shared.setQueue_self .., by simpa [nextOf, hnd] using hn, ?_,
    fun hmem => (List.nodup_append.mp hnodup.2).2.2 pt hmem pt (by simp) rfl, by simpa using hlen⟩
  refine hp.congr fun b hb => nextOf_congr (Function.update_of_ne ?_ _ _)
  rintro rfl
  exact hnodup.1 (by simp [hb])

/-- INTERNAL: with elements before the tail the first one is at the head of the list. -/
theorem FrontLength.first {h : Addr} {v : T} {nd : Node T} (hm : FrontLength s q pt (m + 1))
    (ha : IsAhead own s t q pt) (hI : SharedInv own s) (hc : Contents s () ws)
    (hQ : s.queues q = some Q₁) (hhd : Q₁.mHead = some h) (hnd : s.heap h = some nd)
    (hv : nd.data = some v) : ∃ ws', ws = v :: ws' := by
  have hne : Q₁.mHead ≠ some pt := fun hEq => by
    simpa using (hm.eq_zero_iff hQ).mp hEq
  obtain ⟨-, hht, -⟩ := (ha.strictly hQ hne).unlink hQ hhd hnd
  obtain ⟨w, ws', rfl, ⟨nd', hnd', hw⟩, -⟩ := contents_unlink hc hI hQ hhd hht hnd
  obtain rfl : nd = nd' := by simpa using hnd.symm.trans hnd'
  obtain rfl : v = w := by simpa using hv.symm.trans hw
  exact ⟨ws', rfl⟩

end Front

theorem tracked_afterLockHead {k : Take} (hk : k.wait ≠ .timed) :
    Tracked s ws d (afterLockHead q k) (.pending (.take q k)) := by
  unfold afterLockHead
  split
  · exact ⟨⟨hk, rfl⟩, rfl⟩
  · exact ⟨hk, rfl⟩

/-- INTERNAL: a pop that is not going to park takes effect at the sequence. -/
theorem fifoStep_take {k : Take} (hk : k.wait ≠ .timed)
    (h : ¬(k.wait = .forever ∧ ws.length = 0)) :
    ∃ r, FifoStep ws (.take q k) r (ws.drop (k.amount.quota ws.length)) ∧
      Answered q k ws.length (ws.take (k.amount.quota ws.length)) (.done r) := by
  obtain ⟨wait, amount⟩ := k
  cases amount with
  | one =>
    cases ws with
    | nil =>
      cases wait with
      | never => exact ⟨_, .popEmpty, by simp [Answered, Take.result]⟩
      | forever => exact absurd ⟨rfl, rfl⟩ h
      | timed => exact absurd rfl hk
    | cons v vs =>
      have hq : Amount.one.quota (v :: vs).length = 1 := by
        simp [Amount.quota, quota]
      rw [hq]
      cases wait with
      | never => exact ⟨_, .pop v vs, by simp [Answered, Take.result]⟩
      | forever => exact ⟨_, .waitAndPop v vs, by simp [Answered, Take.result]⟩
      | timed => exact absurd rfl hk
  | many count =>
    cases wait with
    | never => exact ⟨_, .popN ws count, by simp [Answered, Take.result, Amount.quota]⟩
    | forever =>
      have hne : ws ≠ [] := by
        rintro rfl
        exact h ⟨rfl, rfl⟩
      exact ⟨_, .waitAndPopN ws count hne, by simp [Answered, Take.result, Amount.quota, hne]⟩
    | timed => exact absurd rfl hk

/-- INTERNAL: the removal begins. -/
theorem tracked_popStart {k : Take} {pt : Addr} {m : ℕ} (hm : FrontLength s q pt m)
    (hd : d = k.amount.quota m) (hone : k.amount = .one → m ≠ 0)
    (hst : st = .done (k.result .ready (ws.take d))) :
    Tracked s ws d (popStart q k pt) st ∧ (popStart q k pt : Pc Unit T).removes := by
  obtain ⟨wait, amount⟩ := k
  cases amount with
  | one =>
    obtain ⟨m, rfl⟩ := Nat.exists_eq_succ_of_ne_zero (hone rfl)
    refine ⟨⟨fun _ => rfl, ⟨m, hm, ?_⟩, hst⟩, trivial⟩
    rw [hd]
    exact quota_pred (by decide) m
  | many count => exact ⟨⟨by simp, ⟨m, hm, hd⟩, hst⟩, trivial⟩

/-- INTERNAL: after the comparison of `m_head` with the tail that was read. -/
theorem testEmpty_follows {k : Take} {pt : Addr} {last : Bool} (hc : Contents s () ws)
    (hd : d ≤ ws.length) (hint : Q₁.mInterruptWaiting = false) (hQ : s.queues q = some Q₁)
    (h : Tracked s ws d (.testEmpty q k last pt) st) :
    Follows t s ws d (.testEmpty q k last pt) st none (afterTest q k last pt Q₁) s := by
  obtain ⟨⟨hk, rfl⟩, m, hm, hdm, hst⟩ := h
  have hzero : m = 0 → d = 0 := by
    rintro rfl
    rw [hdm]
    cases k.amount <;> simp [Amount.quota]
  have hiff := hm.eq_zero_iff hQ
  cases hw : k.wait with
  | timed => exact absurd hw hk
  | never =>
    simp only [afterTest, hw, Answered] at hst ⊢
    simp only [hiff]
    by_cases hempty : k.amount = .one ∧ m = 0
    · simp only [hempty, and_self, if_true] at hst ⊢
      exact follows_stutter hc hd (by simpa [Tracked] using hst) (.inr (.inl (hzero hempty.2)))
    · simp only [hempty, if_false] at hst ⊢
      have hpop := tracked_popStart hm hdm (fun hone hm => hempty ⟨hone, hm⟩) (by simpa using hst)
      exact follows_stutter hc hd hpop.1 (.inl hpop.2)
  | forever =>
    simp only [afterTest, hw, Answered, hint] at hst ⊢
    simp only [ne_eq, hiff]
    by_cases hempty : m = 0
    · simp only [hempty, and_self, if_true] at hst ⊢
      exact follows_stutter hc hd ⟨hk, hst⟩ (.inr (.inl (hzero hempty)))
    · simp only [hempty, and_false, if_false] at hst ⊢
      have hpop := tracked_popStart hm hdm (fun _ => hempty) hst
      exact follows_stutter hc hd hpop.1 (.inl hpop.2)

/-- INTERNAL: reading the tail is the effect of a pop, unless it is going to wait. -/
theorem readTail_follows {k : Take} {pt : Addr} {last : Bool} (hc : Contents s () ws)
    (hd : d = 0) (hQ : s.queues q = some Q₁) (hpt : Q₁.mTail = some pt) (hhead : HoldsHead s t ())
    (h : Tracked s ws d (.readTail q k last) st) :
    Follows t s ws d (.readTail q k last) st none (.unlockTailMut q k last pt) s := by
  obtain ⟨hk, hst⟩ := h
  subst hd
  have hm : FrontLength s q pt ws.length := Contents.frontLength hc hQ hpt
  by_cases hwait : k.wait = .forever ∧ ws.length = 0
  · refine follows_stutter hc (Nat.zero_le _) ⟨hk, _, hm, ?_, ?_⟩ (.inl trivial)
    · rw [hwait.2]
      cases k.amount <;> simp [Amount.quota]
    · rw [Answered, if_pos hwait]
      exact hst
  · obtain ⟨r, hop, hans⟩ := fifoStep_take (q := q) hk.1 hwait
    have hle : k.amount.quota ws.length ≤ ws.length := by
      cases k.amount <;> exact quota_le _ _
    exact follows_lin hst hc hop hle ⟨hk, _, hm, rfl, hans⟩ (.inr hhead) (.inl trivial)

theorem popStep_follows [DecidableEq Tid] (hI : SharedInv own s) (hc : Contents s () ws)
    (hd : d ≤ ws.length)
    (hint : NoInterrupt s) (hfree : HoldsHead s t () → ¬p.removes → d = 0) (has : assertion own t p s)
    (h : Tracked s ws d p st) (hs : PopStep t p s p' s') : Follows t s ws d p st none p' s' := by
  by_cases hnode : ∃ k pt count out, p = .popNode () k pt count out
  · obtain ⟨k, pt, count, out, rfl⟩ := hnode
    cases hs with
    | @popNode _ _ _ _ _ _ Q' hd' nd hQ hhd hnd =>
      obtain ⟨hone, ⟨m, hm, hdm⟩, hst⟩ := h
      have hstrict : IsStrictlyAhead own s t () pt := has
      obtain ⟨-, hht, -⟩ := hstrict.unlink hQ hhd hnd
      obtain ⟨v, ws', rfl, -, hc'⟩ := contents_unlink hc hI hQ hhd hht hnd
      have hm' := hm.unlink hstrict.isAhead hQ hhd hnd
      have hle : quota (count - 1) m ≤ ws'.length := by
        simp only [List.length_cons] at hd
        omega
      have htake : ((v :: ws').take d).tail = ws'.take (quota (count - 1) m) := by
        rw [hdm, List.take_succ_cons, List.tail_cons]
      rw [htake] at hst
      refine follows_unlink rfl hdm hle hc' ?_ hstrict.isAhead.holdsHead ?_ <;> unfold afterPop
      · cases hk : k.amount with
        | one => simpa [hone hk, Tracked] using hst
        | many c => exact ⟨by simp [hk], ⟨m, hm', rfl⟩, hst⟩
      · cases hk : k.amount with
        | one => simp [hone hk]
        | many c => exact .inl trivial
  · have hc' := popStep_contents hs (fun _ k pt count out hEq => hnode ⟨k, pt, count, out, hEq⟩) hc
    cases hs with
    | lockHead hQ hm =>
      obtain ⟨hk, rfl⟩ := h
      exact follows_stutter hc' hd (tracked_afterLockHead hk) (.inr (.inr id))
    | testInterrupt hQ =>
      rw [hint _ _ hQ]
      exact follows_stutter hc' hd ⟨⟨h.1, rfl⟩, h.2⟩ (.inr (.inr id))
    | lockTailMut | relock => exact follows_stutter hc' hd h (.inr (.inr id))
    | readTail hQ hpt => exact readTail_follows hc (hfree has.1 id) hQ hpt has.1 h
    | unlockTailMut hQ =>
      obtain ⟨hk, m, hm, hst⟩ := h
      exact follows_stutter hc' hd ⟨hk, m, hm.setQueue hQ rfl, hst⟩ (.inl trivial)
    | testEmpty hQ => exact testEmpty_follows hc hd (hint _ _ hQ) hQ h
    | park | unlockHead => exact follows_stutter hc' hd h (.inr (.inr id))
    | notified | spurious => exact follows_stutter hc' hd ⟨⟨h.1, rfl⟩, h.2⟩ (.inr (.inr id))
    | timeout hQ hk => exact absurd hk h.1
    | @popLoop _ _ k pt count out Q' hQ =>
      obtain ⟨hk, ⟨m, hm, hdm⟩, hst⟩ := h
      unfold afterLoopTest
      split
      · rename_i hstop
        have hzero : d = 0 := by
          rcases hstop with rfl | hempty
          · rw [hdm, quota_zero_left]
          · rw [hdm, (hm.eq_zero_iff hQ).mp hempty, quota_zero_right]
        subst hzero
        exact follows_stutter hc' hd (by simpa [Tracked] using hst) (.inr (.inl rfl))
      · rename_i hgo
        obtain ⟨hcount, hne⟩ := not_or.mp hgo
        obtain ⟨m, rfl⟩ := Nat.exists_eq_succ_of_ne_zero fun hm0 => hne ((hm.eq_zero_iff hQ).mpr hm0)
        exact follows_stutter hc' hd
          ⟨fun hone => absurd hone hk, ⟨m, hm, hdm.trans (quota_pred hcount m)⟩, hst⟩ (.inl trivial)
    | popData hQ hhd hnd hv =>
      obtain ⟨hone, ⟨m, hm, hdm⟩, hst⟩ := h
      obtain ⟨ws', rfl⟩ := hm.first (IsStrictlyAhead.isAhead has) hI hc hQ hhd hnd hv
      refine follows_stutter hc' hd ⟨hone, ⟨m, hm, hdm⟩, ?_⟩ (.inl trivial)
      rw [hst, hdm]
      simp
    | popNode => exact absurd ⟨_, _, _, _, rfl⟩ hnode

/-! ## Sections -/

theorem lockedStep_follows [DecidableEq Tid] (hI : SharedInv own s) (hc : Contents s () ws)
    (hd : d ≤ ws.length) (hfree : HoldsHead s t () → ¬p.removes → d = 0)
    (has : assertion own t p s) (h : Tracked s ws d p st) (hs : LockedStep t p s p' s') :
    Follows t s ws d p st none p' s' := by
  cases hs with
  | acquireHead _ hQ | acquireTail _ hQ | backOffHead _ hQ | backOffTail _ hQ | releaseHead _ hQ
  | releaseTail _ hQ =>
    exact follows_stutter (hc.setQueue hQ rfl rfl) hd h (.inr (.inr id))
  | enter hall =>
    obtain ⟨hcase, hst⟩ := h
    have hhead : HoldsHead s t () := by
      obtain ⟨Q', hQ', hm, -⟩ := hall.2 () (by rcases hcase with rfl | rfl <;> simp [Section.queues])
      exact ⟨Q', hQ', hm⟩
    obtain rfl := hfree hhead id
    rcases hcase with rfl | rfl
    · have hop : FifoStep (ws.drop 0) (.clear ()) .unit (ws.drop ws.length) := by
        simpa using FifoStep.clear ws
      exact follows_lin hst hc hop (Nat.le_refl _) ⟨rfl, rfl, rfl⟩ (.inr hhead) (.inl trivial)
    · exact follows_stutter hc hd ⟨rfl, hst⟩ (.inr (.inl rfl))
  | clearNode hQ hne hhd hnd =>
    obtain ⟨hcl, hst, hdw⟩ := h
    obtain ⟨v, ws', rfl, -, hc'⟩ := contents_unlink hc hI hQ hhd hne hnd
    exact follows_unlink rfl hdw (Nat.le_refl _) hc' ⟨hcl, hst, rfl⟩ (has.1.2 _ has.2.1).1
      (.inl trivial)
  | cleared hQ heq =>
    obtain ⟨rfl, hst, hdw⟩ := h
    obtain rfl := (hc.nil_iff hQ).mpr heq
    exact follows_stutter hc hd hst (.inr (.inl hdw))
  | @testQueue _ _ _ Q' hQ =>
    obtain ⟨rfl, hst⟩ := h
    have hhead : HoldsHead s t () := (has.1.2 _ has.2).1
    obtain rfl := hfree hhead id
    have hop : FifoStep (ws.drop 0) (.empty ()) (.bool (decide (Q'.mHead = Q'.mTail)))
        (ws.drop 0) := by
      have hempty : decide (Q'.mHead = Q'.mTail) = ws.isEmpty := by
        rw [Bool.eq_iff_iff, decide_eq_true_iff, ← hc.nil_iff hQ, List.isEmpty_iff]
      simpa [hempty] using FifoStep.empty ws
    exact follows_lin hst hc hop (Nat.zero_le _) rfl (.inl rfl) (.inr (.inl rfl))
  | moveConstruct | moveAssign => exact h.elim
  | released => exact follows_stutter hc hd h (.inr (.inr id))

end Steps

/-! ## Runs -/

section Runs

variable [DecidableEq Tid] {c : Config Tid (Pc Unit T) (Shared Tid Unit T)}

/-- The queue and the sequence: the threads are related one by one, and the sequence
lacks the linked elements that are being removed. -/
structure FifoRel (c : Config Tid (Pc Unit T) (Shared Tid Unit T)) (vs : List T)
    (f : Tid → Status (Op Unit T) (Res T)) : Prop where
  outline : (outline Tid Unit T).Holds c
  locks : LocksExact c
  queue : (c.sh.queues ()).isSome
  interrupt : NoInterrupt c.sh
  elements : ∃ ws d, Contents c.sh () ws ∧ d ≤ ws.length ∧ vs = ws.drop d ∧
    (∀ t, Tracked c.sh ws d (c.pc t) (f t)) ∧ ((∀ t, ¬(c.pc t).removes) → d = 0)

omit [DecidableEq Tid] in
/-- INTERNAL: only one thread owns `m_head_mut`. -/
theorem HoldsHead.unique {s : Shared Tid Unit T} {q : Unit} {t u : Tid} (h : HoldsHead s t q)
    (h' : HoldsHead s u q) : t = u := by
  obtain ⟨Q₁, hQ₁, hm⟩ := h
  simpa [hm] using h'.of_queue hQ₁

omit [DecidableEq Tid] in
theorem TailNode.unique {s : Shared Tid Unit T} {q : Unit} {t u : Tid} {nd nd' : Node T}
    (h : TailNode s t q nd) (h' : TailNode s u q nd') : t = u := by
  obtain ⟨Q₁, _, hQ₁, hm, -⟩ := h
  simpa [hm] using (h'.of_queue hQ₁).1

omit [DecidableEq Tid] in
/-- INTERNAL: the owner of `m_head_mut` that removes nothing finds nothing half removed. -/
theorem eq_zero_of_holdsHead {own : Owners Tid Unit} {d : ℕ} {t : Tid}
    (hloc : ∀ u, assertion own u (c.pc u) c.sh) (hzero : (∀ u, ¬(c.pc u).removes) → d = 0)
    (hhead : HoldsHead c.sh t ()) (ht : ¬(c.pc t).removes) : d = 0 := by
  refine hzero fun u hu => ?_
  obtain rfl := hhead.unique (holdsHead_of_removes (hloc u) hu)
  exact ht hu

/-- INTERNAL: the sequence follows every step of the queue. -/
theorem fifoRel_simulates :
    Simulates (QueueStep : Program Tid (Pc Unit T) (Shared Tid Unit T) (Lab Unit T)) FifoOnly
      (fifo T) id Point.event FifoRel := by
  constructor
  rintro c c' t l vs f ⟨⟨own, hI, hloc⟩, hlocks, hqueue, hint, ws, d, hc, hd, rfl, htr, hzero⟩
    hcall hstep
  have hlocks' := hlocks.step hstep
  cases hstep with
  | @mk _ _ p' s' hP =>
    obtain ⟨own', ⟨hI', hrely⟩, has'⟩ := queueStep_guarantee (hlocks t) hP own hI (hloc t)
    have hfree := eq_zero_of_holdsHead (t := t) hloc hzero
    have hstop : ∀ q, c.pc t ≠ .setStop q := fun q hq => by
      have h := htr t
      rw [hq] at h
      exact h
    have hfollows : Follows t c.sh ws d (c.pc t) (f t) l p' s' := by
      cases hP with
      | client hs => exact clientStep_follows hI hc hd hcall (htr t) hs
      | push hs => exact pushStep_follows hI hc hd (hloc t) (htr t) hs
      | pop hs => exact popStep_follows hI hc hd hint hfree (hloc t) (htr t) hs
      | locked hs => exact lockedStep_follows hI hc hd hfree (hloc t) (htr t) hs
    obtain ⟨v, st', ws', d', hmove, hv, hc', hd', htr', hun, hrem⟩ := hfollows
    refine ⟨v, _, st', hmove, hv, ⟨own', hI', fun u => ?_⟩, hlocks', queueStep_isSome hP () hqueue,
      queueStep_noInterrupt hint hstop hP, ws', d', hc', hd', rfl, fun u => ?_, fun hnone => ?_⟩
    · change assertion own' u (Function.update c.pc t p' u) s'
      by_cases hu : u = t
      · subst hu
        simpa using has'
      · simpa [Function.update_of_ne hu] using assertion_rely (hrely u hu) _ (hloc u)
    · by_cases hu : u = t
      · subst hu
        simpa using htr'
      · simp only [Function.update_of_ne hu]
        refine (htr u).rely (hloc u) (hrely u hu) hd (fun hur => ?_) fun cl q hcl => ?_
        · rcases hun with ⟨rfl, rfl⟩ | ⟨rfl, hnew, -⟩ | hhead
          · exact ⟨rfl, [], by simp⟩
          · exact ⟨rfl, hnew⟩
          · exact absurd (holdsHead_of_removes (hloc u) hur |>.unique hhead) hu
        · have hin := hloc u
          rw [hcl] at hin
          rcases hun with ⟨rfl, -⟩ | ⟨-, -, nd, htail⟩ | hhead
          · rfl
          · exact absurd ((hin.1.2 q hin.2.1).2.unique htail) hu
          · exact absurd ((hin.1.2 q hin.2.1).1.unique hhead) hu
    · -- the thread that took the step removes nothing any more
      have ht := hnone t
      simp only [Function.update_self] at ht
      rcases hrem with hr | hd0 | ⟨rfl, hr⟩
      · exact absurd hr ht
      · exact hd0
      · refine hzero fun u hu => ?_
        by_cases hut : u = t
        · exact hr (hut ▸ hu)
        · have hnu := hnone u
          simp only [Function.update_of_ne hut] at hnu
          exact hnu hu

omit [DecidableEq Tid] in
/-- INTERNAL: a queue just constructed is the empty sequence. -/
theorem fifoRel_oneQueue : FifoRel (oneQueue Tid T) [] fun _ => .idle := by
  have hQ : (oneQueue Tid T).sh.queues () = some ⟨none, none, [], false, some 0, some 0⟩ := rfl
  refine ⟨outline_oneQueue, locksExact_oneQueue, rfl, fun q Q' h => ?_, [], 0, ?_, Nat.le_refl _,
    rfl, fun _ => rfl, fun _ => rfl⟩
  · obtain rfl : _ = Q' := by simpa using hQ.symm.trans h
    rfl
  · exact ⟨_, 0, 0, [], ⟨hQ, rfl, rfl, .nil 0, by simp⟩, .nil⟩

/-- Every run of pushes, pops, `clear` and `empty` on a queue just constructed is
linearizable to the sequence. -/
theorem linearizable_run {tr : List (Tid × Lab Unit T)}
    (h : Run QueueStep FifoOnly (oneQueue Tid T) tr c) : Linearizable (fifo T) (observed id tr) :=
  h.linearizable fifoRel_simulates fifoRel_oneQueue

end Runs

end UbuntuProjects.TsQueue
