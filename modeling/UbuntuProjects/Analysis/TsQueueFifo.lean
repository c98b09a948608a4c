import UbuntuProjects.Analysis.TsQueueContents
import UbuntuProjects.Concurrency.Simulation

/-!
# `ts_queue` as a sequence

The object that `ts_queue` implements is a sequence (`fifo`): pushes append, pops remove
from the front, `clear` empties it. `Tracks` relates a thread of the queue to a thread
that uses the sequence. A push takes effect when it moves `m_tail`. A pop takes effect
when it reads `m_tail`: from then on it is known which elements it will remove, although
they are still linked. So the sequence lags behind the linked elements by `d` elements,
which the owner of `m_head_mut` is removing: a popper those up to its quota, `clear` all
of them.
-/

set_option autoImplicit false

namespace UbuntuProjects.TsQueue

open Concurrency

variable {Tid T : Type}

/-! ## The sequential object -/

/-- How many of `len` elements a removal of `count` elements takes. A negative count never
becomes zero in the loop. -/
def quota (count : ℤ) (len : ℕ) : ℕ :=
  if 0 ≤ count then min count.toNat len else len

/-- The calls of one thread after another. -/
inductive FifoStep : List T → Op Unit T → Res T → List T → Prop
  | emplace (vs : List T) (v : T) (n : Notify) :
      FifoStep vs (.emplace () v n) .unit (vs ++ [v])
  | pushRange (vs : List T) (r : Range T) (n : Notify) :
      FifoStep vs (.pushRange () r n) .unit (vs ++ r.elements)
  | popEmpty : FifoStep [] (.pop ()) (.status .empty none) []
  | pop (v : T) (vs : List T) : FifoStep (v :: vs) (.pop ()) (.status .ready (some v)) vs
  | popN (vs : List T) (count : ℤ) :
      FifoStep vs (.popN () count) (.range (vs.take (quota count vs.length)) none)
        (vs.drop (quota count vs.length))
  | waitAndPop (v : T) (vs : List T) :
      FifoStep (v :: vs) (.waitAndPop ()) (.status .ready (some v)) vs
  | waitAndPopN (vs : List T) (count : ℤ) : vs ≠ [] →
      FifoStep vs (.waitAndPopN () count) (.range (vs.take (quota count vs.length)) none)
        (vs.drop (quota count vs.length))
  | clear (vs : List T) : FifoStep vs (.clear ()) .unit []
  | empty (vs : List T) : FifoStep vs (.empty ()) (.bool vs.isEmpty) vs

/-- A sequence, empty at first. -/
def fifo (T : Type) : SeqSpec (Op Unit T) (Res T) (List T) where
  init := []
  step := FifoStep

@[simp] theorem quota_zero_right (count : ℤ) : quota count 0 = 0 := by
  simp [quota]

@[simp] theorem quota_zero_left (len : ℕ) : quota 0 len = 0 := by
  simp [quota]

theorem quota_le (count : ℤ) (len : ℕ) : quota count len ≤ len := by
  unfold quota
  split
  · exact Nat.min_le_right _ _
  · exact Nat.le_refl _

/-- One element less on both sides. -/
theorem quota_pred {count : ℤ} (h : count ≠ 0) (len : ℕ) :
    quota count (len + 1) = quota (count - 1) len + 1 := by
  unfold quota
  split <;> split <;> omega

/-- The calls that `fifo` describes, and whose ranges can be read twice. -/
def Op.ofFifo : Op Unit T → Prop
  | .emplace _ _ _ => True
  | .pushRange _ r _ => r.Multipass
  | .take _ k => k.wait ≠ .timed
  | .locked c => c = .clear () ∨ c = .empty ()
  | _ => False

/-- Only these calls are made. -/
def FifoOnly (_ : Config Tid (Pc Unit T) (Shared Tid Unit T)) (e : Tid × Lab Unit T) : Prop :=
  ∀ op, e.2 = some (.call op) → op.ofFifo

/-! ## What a history of the sequence cannot show -/

/-- The elements that a call appends. -/
def Op.appended : Op Unit T → List T
  | .emplace _ v _ => [v]
  | .pushRange _ r _ => r.elements
  | _ => []

/-- The elements that a call has returned. -/
def Res.elements : Res T → List T
  | .status _ ret => ret.toList
  | .range out _ => out
  | _ => []

/-- A call returns elements of the sequence and leaves such, or what it has appended. -/
theorem FifoStep.elements {vs vs' : List T} {op : Op Unit T} {r : Res T}
    (h : FifoStep vs op r vs') {v : T} :
    (v ∈ r.elements → v ∈ vs) ∧ (v ∈ vs' → v ∈ vs ∨ v ∈ op.appended) := by
  cases h with
  | emplace | pushRange => exact ⟨fun h => absurd h List.not_mem_nil, fun h => List.mem_append.mp h⟩
  | popEmpty => exact ⟨fun h => absurd h List.not_mem_nil, .inl⟩
  | pop w vs | waitAndPop w vs =>
    refine ⟨fun h => ?_, fun h => .inl (List.mem_cons_of_mem _ h)⟩
    obtain rfl : v = w := by simpa [Res.elements] using h
    exact List.mem_cons_self ..
  | popN | waitAndPopN => exact ⟨List.mem_of_mem_take, fun h => .inl (List.mem_of_mem_drop h)⟩
  | clear => exact ⟨fun h => absurd h List.not_mem_nil, fun h => absurd h List.not_mem_nil⟩
  | empty => exact ⟨fun h => absurd h List.not_mem_nil, .inl⟩

/-- INTERNAL: what is returned or left has been appended. -/
theorem appended_of_legal {l : List (Op Unit T × Res T)} {vs : List T}
    (h : (fifo T).Legal [] l vs) {v : T} (hv : v ∈ vs ∨ ∃ x ∈ l, v ∈ x.2.elements) :
    ∃ x ∈ l, v ∈ x.1.appended := by
  induction h with
  | nil => rcases hv with hv | ⟨x, hx, -⟩ <;> cases ‹_ ∈ []›
  | @snoc l vs vs' op r _ hs ih =>
    have hin : v ∈ vs ∨ v ∈ op.appended ∨ ∃ x ∈ l, v ∈ x.2.elements := by
      rcases hv with hv | ⟨x, hx, hv⟩
      · exact (hs.elements.2 hv).imp_right .inl
      · rcases List.mem_append.mp hx with hx | hx
        · exact .inr (.inr ⟨x, hx, hv⟩)
        · obtain rfl := List.mem_singleton.mp hx
          exact .inl (hs.elements.1 hv)
    rcases hin with hv | hv | hv
    · obtain ⟨x, hx, hv⟩ := ih (.inl hv)
      exact ⟨x, List.mem_append_left _ hx, hv⟩
    · exact ⟨(op, r), List.mem_append_right _ (List.mem_singleton_self _), hv⟩
    · obtain ⟨x, hx, hv⟩ := ih (.inr hv)
      exact ⟨x, List.mem_append_left _ hx, hv⟩

/-- In a linearizable history every element that is returned has been pushed. -/
theorem appended_of_linearizable {Tid : Type} {H : History Tid (Op Unit T) (Res T)}
    (h : Linearizable (fifo T) H) {i j : ℕ} {r : Res T} (hr : Returns H i j r) {v : T}
    (hv : v ∈ r.elements) :
    ∃ (t : Tid) (op : Op Unit T), (t, .call op) ∈ H ∧ v ∈ op.appended := by
  obtain ⟨L, hL⟩ := h
  obtain ⟨op, hmem⟩ := hL.returned i j r hr
  obtain ⟨vs, hlegal⟩ := hL.legal
  obtain ⟨x, hx, hpush⟩ := appended_of_legal hlegal
    (.inr ⟨(op, r), List.mem_map_of_mem (f := Prod.snd) hmem, hv⟩)
  obtain ⟨y, hy, rfl⟩ := List.mem_map.mp hx
  obtain ⟨t, hcall⟩ := hL.calls y hy
  exact ⟨t, y.2.1, List.mem_of_getElem? hcall, hpush⟩

/-! ## A thread of the queue and a thread of the sequence -/

/-- The number that a pop removes of `len` elements. -/
def Amount.quota (a : Amount) (len : ℕ) : ℕ :=
  match a with
  | .one => TsQueue.quota 1 len
  | .many count => TsQueue.quota count len

/-- `op` appends `vs`. -/
def Appends (op : Op Unit T) (vs : List T) : Prop :=
  (∃ q r n, vs = r.elements ∧ op = .pushRange q r n) ∨ ∃ q v n, vs = [v] ∧ op = .emplace q v n

/-- The last node of the queue holds `v`. -/
def TailStores (s : Shared Tid Unit T) (q : Unit) (v : T) : Prop :=
  ∃ Q' tl, s.queues q = some Q' ∧ Q'.mTail = some tl ∧ Stores s.heap tl v

/-- There are `m` nodes from `m_head` up to the node `pt`. -/
def FrontLength (s : Shared Tid Unit T) (q : Unit) (pt : Addr) (m : ℕ) : Prop :=
  ∃ Q' hd front, s.queues q = some Q' ∧ Q'.mHead = some hd ∧
    Path (nextOf s.heap) hd front pt ∧ pt ∉ front ∧ front.length = m

/-- The control points at which elements that are gone from the sequence may still be
linked. -/
def Pc.removes : Pc Unit T → Prop
  | .unlockTailMut _ _ _ _ => True
  | .testEmpty _ _ _ _ => True
  | .popLoop _ _ _ _ _ => True
  | .popData _ _ _ _ _ => True
  | .popNode _ _ _ _ _ => True
  | .clearing _ _ => True
  | _ => False

/-- What the sequence has answered to a pop that found `m` elements and takes `xs`. A
waiting pop that found none has not taken effect. -/
def Answered (q : Unit) (k : Take) (m : ℕ) (xs : List T) (st : Status (Op Unit T) (Res T)) :
    Prop :=
  if k.wait = .forever ∧ m = 0 then st = .pending (.take q k)
  else if k.amount = .one ∧ m = 0 then st = .done (k.result .empty [])
  else st = .done (k.result .ready xs)

/-- A thread of the queue at a control point and its status at the sequence, where `ws`
are the linked elements and the first `d` of them are being removed. -/
def Tracked (s : Shared Tid Unit T) (ws : List T) (d : ℕ) :
    Pc Unit T → Status (Op Unit T) (Res T) → Prop
  | .idle, st => st = .idle
  | .returning r, st => st = .done r
  | .makeNode q v n, st => st = .pending (.emplace q v n)
  | .makeSub q r n, st => r.Multipass ∧ st = .pending (.pushRange q r n)
  | .copyRange q v rest headSub tailSub n, st => ∃ xs, SubStores s.heap headSub tailSub xs ∧
    st = .pending (.pushRange q (.cons v (xs ++ rest) v) n)
  | .lockTail _ v sub _, st => ∃ xs op, SubStores s.heap sub.first sub.last xs ∧
    Appends op (v :: xs) ∧ st = .pending op
  | .constructData _ v sub _, st => ∃ xs op, SubStores s.heap sub.first sub.last xs ∧
    Appends op (v :: xs) ∧ st = .pending op
  | .setInitialized q sub _, st => ∃ v xs op, TailStores s q v ∧
    SubStores s.heap sub.first sub.last xs ∧ Appends op (v :: xs) ∧ st = .pending op
  | .linkNext q sub _, st => ∃ v xs op, TailStores s q v ∧
    SubStores s.heap sub.first sub.last xs ∧ Appends op (v :: xs) ∧ st = .pending op
  | .moveTail q sub _, st => ∃ v xs op, TailStores s q v ∧
    SubStores s.heap sub.first sub.last xs ∧ Appends op (v :: xs) ∧ st = .pending op
  | .unlockTail _ _, st => st = .done .unit
  | .notify _ _, st => st = .done .unit
  | .lockHead q k, st => k.wait ≠ .timed ∧ st = .pending (.take q k)
  | .testInterrupt q k, st => k.wait ≠ .timed ∧ st = .pending (.take q k)
  | .lockTailMut q k last, st => (k.wait ≠ .timed ∧ last = false) ∧ st = .pending (.take q k)
  | .readTail q k last, st => (k.wait ≠ .timed ∧ last = false) ∧ st = .pending (.take q k)
  | .unlockTailMut q k last pt, st => (k.wait ≠ .timed ∧ last = false) ∧
    ∃ m, FrontLength s q pt m ∧ d = k.amount.quota m ∧ Answered q k m (ws.take d) st
  | .testEmpty q k last pt, st => (k.wait ≠ .timed ∧ last = false) ∧
    ∃ m, FrontLength s q pt m ∧ d = k.amount.quota m ∧ Answered q k m (ws.take d) st
  | .park q k, st => k.wait ≠ .timed ∧ st = .pending (.take q k)
  | .parked q k, st => k.wait ≠ .timed ∧ st = .pending (.take q k)
  | .relock q k last, st => (k.wait ≠ .timed ∧ last = false) ∧ st = .pending (.take q k)
  | .popLoop q k pt count out, st => k.amount ≠ .one ∧
    (∃ m, FrontLength s q pt m ∧ d = quota count m) ∧
    st = .done (k.result .ready (out ++ ws.take d))
  | .popData q k pt count out, st => (k.amount = .one → count = 1) ∧
    (∃ m, FrontLength s q pt (m + 1) ∧ d = quota (count - 1) m + 1) ∧
    st = .done (k.result .ready (out ++ ws.take d))
  | .popNode q k pt count out, st => (k.amount = .one → count = 1) ∧
    (∃ m, FrontLength s q pt (m + 1) ∧ d = quota (count - 1) m + 1) ∧
    st = .done (k.result .ready (out ++ (ws.take d).tail))
  | .unlockHead _ r, st => st = .done r
  | .acquire c, st => (c = .clear () ∨ c = .empty ()) ∧ st = .pending (.locked c)
  | .clearing c _, st => c = .clear () ∧ st = .done .unit ∧ d = ws.length
  | .testQueue c _, st => c = .empty () ∧ st = .pending (.locked c)
  | .release _ r, st => st = .done r
  | _, _ => False

/-! ## Interference -/

section Stability

variable {own own' : Owners Tid Unit} {u : Tid} {s s' : Shared Tid Unit T} {q : Unit}
  {pt : Addr} {ws ws' : List T} {d d' m : ℕ} {p : Pc Unit T} {st : Status (Op Unit T) (Res T)}

/-- INTERNAL: no path to the last node of a private chain passes it. -/
theorem SubRep.last_notMem {heap : Addr → Option (Node T)} {first last : Addr}
    {ys zs : List Addr} (hsub : SubRep own heap u first last ys)
    (hz : Path (nextOf heap) first zs last) : last ∉ zs := fun hm => by
  have hlive := hz.next_isSome hm
  simp [nextOf, hsub.fresh, Node.fresh] at hlive

/-- INTERNAL: a private chain has no other nodes than those of the outline. -/
theorem SubRep.unique {heap : Addr → Option (Node T)} {first last : Addr} {ys zs : List Addr}
    (hsub : SubRep own heap u first last ys) (hz : Path (nextOf heap) first zs last) : zs = ys :=
  hz.unique hsub.path (hsub.last_notMem hz) (hsub.last_notMem hsub.path)

/-- INTERNAL: the values of a private chain do not change. -/
theorem SubStores.frame {heap heap' : Addr → Option (Node T)} {first last : Addr} {xs : List T}
    {ys : List Addr} (h : SubStores heap first last xs) (hsub : SubRep own heap u first last ys)
    (hheap : ∀ a, own a = some (.thread u) → heap' a = heap a) : SubStores heap' first last xs := by
  obtain ⟨ys', hp, hv⟩ := h
  obtain rfl := hsub.unique hp
  have hx : ∀ a ∈ ys', heap' a = heap a := fun a ha => hheap a (hsub.owned a (by simp [ha]))
  exact ⟨ys', hp.congr fun a ha => nextOf_congr (hx a ha), forall₂_stores_congr hv hx⟩

theorem SubStores.rely {first last : Addr} {xs : List T}
    (h : SubStores s.heap first last xs) (hsub : ∃ ys, SubRep own s.heap u first last ys)
    (hr : Rely own own' u s s') : SubStores s'.heap first last xs :=
  let ⟨_, hsub⟩ := hsub
  h.frame hsub fun a ha => (hr.priv a ha).2

theorem TailStores.rely {v : T} {nd : Node T} (h : TailStores s q v) (htail : TailNode s u q nd)
    (hr : Rely own own' u s s') : TailStores s' q v := by
  obtain ⟨Q₁, tl, hQ, hm, htl, hnd⟩ := htail
  obtain ⟨Q₂, tl', hQ', htl', hv⟩ := h
  obtain rfl : Q₁ = Q₂ := by simpa using hQ.symm.trans hQ'
  obtain rfl : tl = tl' := by simpa using htl.symm.trans htl'
  obtain ⟨Q₃, hQ₃, -, ht⟩ := hr.queue q Q₁ hQ
  obtain ⟨-, htl₃, hheap⟩ := ht hm
  exact ⟨Q₃, tl, hQ₃, htl₃.trans htl, hv.congr (hheap tl htl)⟩

/-- INTERNAL: the outline knows the nodes before the tail that was read. -/
theorem FrontLength.ahead (h : FrontLength s q pt m) (ha : IsAhead own s u q pt) :
    ∃ Q' hd tl front, Ahead own s u q pt Q' hd tl front ∧ front.length = m := by
  obtain ⟨Q₁, hd, tl, front, ha⟩ := ha
  obtain ⟨Q₂, hd', front', hQ, hhd, hp, hpt, hlen⟩ := h
  obtain rfl : Q₁ = Q₂ := by simpa using ha.queue.symm.trans hQ
  obtain rfl : hd = hd' := by simpa using ha.head.symm.trans hhd
  have hpt' : pt ∉ front := fun hm => (List.nodup_append.mp ha.nodup).2.2 pt hm pt (by simp) rfl
  obtain rfl := ha.path.unique hp hpt' hpt
  exact ⟨Q₁, hd, tl, front, ha, hlen⟩

theorem Ahead.frontLength {Q' : Queue Tid} {hd tl : Addr} {front : List Addr}
    (h : Ahead own s u q pt Q' hd tl front) : FrontLength s q pt front.length :=
  ⟨Q', hd, front, h.queue, h.head, h.path,
    fun hm => (List.nodup_append.mp h.nodup).2.2 pt hm pt (by simp) rfl, rfl⟩

theorem FrontLength.rely (h : FrontLength s q pt m) (ha : IsAhead own s u q pt)
    (hr : Rely own own' u s s') : FrontLength s' q pt m := by
  obtain ⟨Q', hd, tl, front, ha, rfl⟩ := h.ahead ha
  obtain ⟨Q₂, tl', ha'⟩ := ha.rely hr
  exact ha'.frontLength

/-- INTERNAL: a thread that removes elements owns `m_head_mut`. -/
theorem holdsHead_of_removes (has : assertion own u p s) (hp : p.removes) : HoldsHead s u () := by
  cases p with
  | unlockTailMut => exact has.1.holdsHead
  | testEmpty | popLoop => exact IsAhead.holdsHead has
  | popData | popNode => exact (IsStrictlyAhead.isAhead has).holdsHead
  | clearing => exact (has.1.2 _ has.2.1).1
  | _ => exact hp.elim

/-- INTERNAL: what relates a thread to the sequence is not disturbed by the steps of
others. While the thread removes elements, they only append. -/
theorem Tracked.rely (h : Tracked s ws d p st) (has : assertion own u p s)
    (hr : Rely own own' u s s') (hd : d ≤ ws.length)
    (hrem : p.removes → d' = d ∧ ∃ new, ws' = ws ++ new)
    (hclear : ∀ c q, p = .clearing c q → ws' = ws) : Tracked s' ws' d' p st := by
  have htake : p.removes → ws'.take d' = ws.take d := fun hp => by
    obtain ⟨rfl, new, rfl⟩ := hrem hp
    exact List.take_append_of_le_length hd
  cases p with
  | copyRange =>
    obtain ⟨xs, hsub, hst⟩ := h
    exact ⟨xs, hsub.rely has hr, hst⟩
  | lockTail =>
    obtain ⟨xs, op, hsub, hst⟩ := h
    exact ⟨xs, op, hsub.rely has hr, hst⟩
  | constructData =>
    obtain ⟨xs, op, hsub, hst⟩ := h
    exact ⟨xs, op, hsub.rely has.2 hr, hst⟩
  | setInitialized | linkNext | moveTail =>
    obtain ⟨v, xs, op, htail, hsub, hst⟩ := h
    obtain ⟨v', htail', hsub'⟩ := has
    exact ⟨v, xs, op, htail.rely htail' hr, hsub.rely hsub' hr, hst⟩
  | unlockTailMut =>
    obtain ⟨hk, m, hm, hdm, hst⟩ := h
    exact ⟨hk, m, hm.rely has.1 hr, (hrem trivial).1.trans hdm, (htake trivial).symm ▸ hst⟩
  | testEmpty =>
    obtain ⟨hk, m, hm, hdm, hst⟩ := h
    exact ⟨hk, m, hm.rely has hr, (hrem trivial).1.trans hdm, (htake trivial).symm ▸ hst⟩
  | popLoop =>
    obtain ⟨hk, ⟨m, hm, hdm⟩, hst⟩ := h
    exact ⟨hk, ⟨m, hm.rely has hr, (hrem trivial).1.trans hdm⟩, (htake trivial).symm ▸ hst⟩
  | popData | popNode =>
    obtain ⟨hk, ⟨m, hm, hdm⟩, hst⟩ := h
    exact ⟨hk, ⟨m, hm.rely (IsStrictlyAhead.isAhead has) hr, (hrem trivial).1.trans hdm⟩,
      (htake trivial).symm ▸ hst⟩
  | clearing c q =>
    obtain ⟨hc, hst, hdw⟩ := h
    exact ⟨hc, hst, by rw [(hrem trivial).1, hclear c q rfl, hdw]⟩
  | _ => exact h

end Stability

end UbuntuProjects.TsQueue
