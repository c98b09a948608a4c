import UbuntuProjects.Model.TsQueue
import UbuntuProjects.Concurrency.Path

/-!
# The proof outline of `ts_queue`

Every live node belongs to one queue or to one thread (`Owner`): a thread owns the nodes
it has allocated and not yet linked. A queue is a path of filled nodes from `m_head` to
`m_tail` (`QueueRep`), and while nobody holds `m_tail_mut` its last node is fresh. What
is known at each control point is `assertion`: a pusher that holds `m_tail_mut` knows
how far it has come with the last node, and a popper that holds `m_head_mut` knows that
the tail it has read is at the end of a path of filled nodes that starts at `m_head` and
does not contain the current last node (`Ahead`), wherever that has moved meanwhile.

`Rely` says what the steps of the other threads leave alone from the point of view of
one thread; every assertion is stable under it (`assertion_rely`).
-/

set_option autoImplicit false

namespace UbuntuProjects.TsQueue

open Concurrency

variable {Tid Q T : Type}

/-- Who may write a node. -/
inductive Owner (Tid Q : Type) where
  | queue (q : Q)
  | thread (t : Tid)

/-- The owners of the live nodes: the ghost value of the outline. -/
abbrev Owners (Tid Q : Type) : Type := Addr → Option (Owner Tid Q)

/-- Where the link of a node points. -/
def nextOf (heap : Addr → Option (Node T)) (a : Addr) : Option Addr :=
  (heap a).bind Node.mNext

/-- A live node with a constructed element. -/
def Filled (heap : Addr → Option (Node T)) (a : Addr) : Prop :=
  ∃ nd v, heap a = some nd ∧ nd.data = some v ∧ nd.initialized = true

/-- The nodes `xs` from the first one and the last node `tl` represent the queue object. -/
structure QueueRep (own : Owners Tid Q) (heap : Addr → Option (Node T)) (q : Q)
    (Q' : Queue Tid) (hd tl : Addr) (xs : List Addr) : Prop where
  head : Q'.mHead = some hd
  tail : Q'.mTail = some tl
  path : Path (nextOf heap) hd xs tl
  nodup : (xs ++ [tl]).Nodup
  owned : ∀ a ∈ xs ++ [tl], own a = some (.queue q)
  filled : ∀ a ∈ xs, Filled heap a

/-- The nodes a thread is going to append: filled ones, and a fresh last one. -/
structure SubRep (own : Owners Tid Q) (heap : Addr → Option (Node T)) (t : Tid)
    (first last : Addr) (ys : List Addr) : Prop where
  path : Path (nextOf heap) first ys last
  nodup : (ys ++ [last]).Nodup
  owned : ∀ a ∈ ys ++ [last], own a = some (.thread t)
  filled : ∀ a ∈ ys, Filled heap a
  fresh : heap last = some .fresh

/-- Thread `t` owns `m_head_mut` of `q`. -/
def HoldsHead (s : Shared Tid Q T) (t : Tid) (q : Q) : Prop :=
  ∃ Q', s.queues q = some Q' ∧ Q'.mHeadMut = some t

/-- Thread `t` owns `m_tail_mut` of `q` and the last node is `nd`. -/
def TailNode (s : Shared Tid Q T) (t : Tid) (q : Q) (nd : Node T) : Prop :=
  ∃ Q' tl, s.queues q = some Q' ∧ Q'.mTailMut = some t ∧ Q'.mTail = some tl ∧
    s.heap tl = some nd

/-- If thread `t` owns `m_tail_mut` of `q`, the last node is fresh. -/
def FreshIfHeld (s : Shared Tid Q T) (t : Tid) (q : Q) : Prop :=
  ∀ Q' tl, s.queues q = some Q' → Q'.mTailMut = some t → Q'.mTail = some tl →
    s.heap tl = some .fresh

/-- Thread `t` owns `m_head_mut` of `q`, and the filled nodes `front` lead from `m_head`
to the tail it has read. The current last node is not among them. -/
structure Ahead (own : Owners Tid Q) (s : Shared Tid Q T) (t : Tid) (q : Q)
    (possibleTail : Addr) (Q' : Queue Tid) (hd tl : Addr) (front : List Addr) : Prop where
  queue : s.queues q = some Q'
  held : Q'.mHeadMut = some t
  head : Q'.mHead = some hd
  tail : Q'.mTail = some tl
  path : Path (nextOf s.heap) hd front possibleTail
  nodup : (front ++ [possibleTail]).Nodup
  owned : ∀ a ∈ front ++ [possibleTail], own a = some (.queue q)
  filled : ∀ a ∈ front, Filled s.heap a
  behind : tl ∉ front

/-- The tail that was read is still ahead of `m_head` or equal to it. -/
def IsAhead (own : Owners Tid Q) (s : Shared Tid Q T) (t : Tid) (q : Q)
    (possibleTail : Addr) : Prop :=
  ∃ Q' hd tl front, Ahead own s t q possibleTail Q' hd tl front

/-- The tail that was read is ahead of `m_head`. -/
def IsStrictlyAhead (own : Owners Tid Q) (s : Shared Tid Q T) (t : Tid) (q : Q)
    (possibleTail : Addr) : Prop :=
  ∃ Q' hd tl front, Ahead own s t q possibleTail Q' hd tl front ∧ hd ≠ possibleTail

/-- Inside a section: both mutexes of its queues are held, and their last nodes are
fresh. -/
def Inside (s : Shared Tid Q T) (t : Tid) (c : Section Q) : Prop :=
  c.queues.Nodup ∧ ∀ q ∈ c.queues, HoldsHead s t q ∧ TailNode s t q .fresh

/-- The queue that a move is about to overwrite has been cleared. -/
def Cleared (s : Shared Tid Q T) : Section Q → Prop
  | .moveAssign this _ => ∀ Q', s.queues this = some Q' → Q'.mHead = Q'.mTail
  | _ => True

/-- What thread `t` knows at each of its control points. -/
def assertion (own : Owners Tid Q) (t : Tid) : Pc Q T → Shared Tid Q T → Prop
  | .copyRange _ _ _ headSub tailSub _, s => ∃ ys, SubRep own s.heap t headSub tailSub ys
  | .lockTail _ _ sub _, s => ∃ ys, SubRep own s.heap t sub.first sub.last ys
  | .constructData q _ sub _, s =>
    TailNode s t q .fresh ∧ ∃ ys, SubRep own s.heap t sub.first sub.last ys
  | .setInitialized q sub _, s => ∃ v, TailNode s t q ⟨some v, none, false⟩ ∧
    ∃ ys, SubRep own s.heap t sub.first sub.last ys
  | .linkNext q sub _, s => ∃ v, TailNode s t q ⟨some v, none, true⟩ ∧
    ∃ ys, SubRep own s.heap t sub.first sub.last ys
  | .moveTail q sub _, s => ∃ v, TailNode s t q ⟨some v, some sub.first, true⟩ ∧
    ∃ ys, SubRep own s.heap t sub.first sub.last ys
  | .unlockTail q _, s => TailNode s t q .fresh
  | .testInterrupt q _, s => HoldsHead s t q
  | .lockTailMut q _ _, s => HoldsHead s t q
  | .readTail q _ _, s => HoldsHead s t q ∧ TailNode s t q .fresh
  | .unlockTailMut q _ _ possibleTail, s =>
    IsAhead own s t q possibleTail ∧ TailNode s t q .fresh
  | .testEmpty q _ _ possibleTail, s => IsAhead own s t q possibleTail
  | .park q _, s => HoldsHead s t q
  | .popLoop q _ possibleTail _ _, s => IsAhead own s t q possibleTail
  | .popData q _ possibleTail _ _, s => IsStrictlyAhead own s t q possibleTail
  | .popNode q _ possibleTail _ _, s => IsStrictlyAhead own s t q possibleTail
  | .unlockHead q _, s => HoldsHead s t q
  | .acquire c, s => ∀ q ∈ c.queues, FreshIfHeld s t q
  | .clearing c q, s => Inside s t c ∧ q ∈ c.queues ∧ (c = .clear q ∨ ∃ o, c = .moveAssign q o)
  | .testQueue c q, s => Inside s t c ∧ q ∈ c.queues
  | .moveQueue c, s => Inside s t c ∧ Cleared s c
  | .release c _, s => ∀ q ∈ c.queues, FreshIfHeld s t q
  | .setStop q, s => HoldsHead s t q
  | .unlockStop q, s => HoldsHead s t q
  | _, _ => True

/-- What holds of the shared state between any two steps. -/
structure SharedInv (own : Owners Tid Q) (s : Shared Tid Q T) : Prop where
  rep : ∀ q Q', s.queues q = some Q' → ∃ hd tl xs, QueueRep own s.heap q Q' hd tl xs
  quiet : ∀ q Q' tl, s.queues q = some Q' → Q'.mTailMut = none → Q'.mTail = some tl →
    s.heap tl = some .fresh
  live : ∀ a o, own a = some o → (s.heap a).isSome

/-- The proof outline of the queue. -/
def outline (Tid Q T : Type) : Outline Tid (Pc Q T) (Shared Tid Q T) (Owners Tid Q) where
  shared := SharedInv
  thread := assertion

/-! ## Interference -/

/-- What the steps of other threads leave alone from the point of view of thread `u`. -/
structure Rely (own own' : Owners Tid Q) (u : Tid) (s s' : Shared Tid Q T) : Prop where
  priv : ∀ a, own a = some (.thread u) → own' a = some (.thread u) ∧ s'.heap a = s.heap a
  queue : ∀ q Q₁, s.queues q = some Q₁ → ∃ Q₂, s'.queues q = some Q₂ ∧
    (Q₁.mHeadMut = some u → Q₂.mHeadMut = some u ∧ Q₂.mHead = Q₁.mHead) ∧
    (Q₁.mTailMut = some u → Q₂.mTailMut = some u ∧ Q₂.mTail = Q₁.mTail ∧
      ∀ tl, Q₁.mTail = some tl → s'.heap tl = s.heap tl)
  tailMut : ∀ q Q₂, s'.queues q = some Q₂ → Q₂.mTailMut = some u →
    ∃ Q₁, s.queues q = some Q₁ ∧ Q₁.mTailMut = some u
  front : ∀ q Q₁ Q₂, s.queues q = some Q₁ → s'.queues q = some Q₂ → Q₁.mHeadMut = some u →
    (∀ a, own a = some (.queue q) → own' a = some (.queue q) ∧
      (Q₁.mTail ≠ some a → s'.heap a = s.heap a)) ∧
    ∃ tl, Q₂.mTail = some tl ∧ (Q₁.mTail = some tl ∨ own tl ≠ some (.queue q))

theorem nextOf_congr {heap heap' : Addr → Option (Node T)} {a : Addr} (h : heap' a = heap a) :
    nextOf heap' a = nextOf heap a := by
  rw [nextOf, nextOf, h]

theorem Filled.congr {heap heap' : Addr → Option (Node T)} {a : Addr} (hf : Filled heap a)
    (h : heap' a = heap a) : Filled heap' a := by
  rw [Filled, h]
  exact hf

section Stability

variable {own own' : Owners Tid Q} {u : Tid} {s s' : Shared Tid Q T}

/-- INTERNAL: private nodes stay as they are. -/
theorem SubRep.rely {first last : Addr} {ys : List Addr}
    (h : SubRep own s.heap u first last ys) (hr : Rely own own' u s s') :
    SubRep own' s'.heap u first last ys where
  path := h.path.congr fun a ha => nextOf_congr (hr.priv a (h.owned a (by simp [ha]))).2
  nodup := h.nodup
  owned a ha := (hr.priv a (h.owned a ha)).1
  filled a ha := (h.filled a ha).congr (hr.priv a (h.owned a (by simp [ha]))).2
  fresh := (hr.priv last (h.owned last (by simp))).2.trans h.fresh

theorem HoldsHead.rely {q : Q} (h : HoldsHead s u q) (hr : Rely own own' u s s') :
    HoldsHead s' u q := by
  obtain ⟨Q₁, hQ, hm⟩ := h
  obtain ⟨Q₂, hQ₂, hh, -⟩ := hr.queue q Q₁ hQ
  exact ⟨Q₂, hQ₂, (hh hm).1⟩

theorem TailNode.rely {q : Q} {nd : Node T} (h : TailNode s u q nd)
    (hr : Rely own own' u s s') : TailNode s' u q nd := by
  obtain ⟨Q₁, tl, hQ, hm, htl, hnd⟩ := h
  obtain ⟨Q₂, hQ₂, -, ht⟩ := hr.queue q Q₁ hQ
  obtain ⟨hm₂, htl₂, hheap⟩ := ht hm
  exact ⟨Q₂, tl, hQ₂, hm₂, htl₂.trans htl, (hheap tl htl).trans hnd⟩

theorem FreshIfHeld.rely {q : Q} (h : FreshIfHeld s u q) (hr : Rely own own' u s s') :
    FreshIfHeld s' u q := by
  intro Q₂ tl hQ₂ hm htl
  obtain ⟨Q₁, hQ₁, hm₁⟩ := hr.tailMut q Q₂ hQ₂ hm
  obtain ⟨Q₃, hQ₃, -, ht⟩ := hr.queue q Q₁ hQ₁
  obtain rfl : Q₂ = Q₃ := by simpa using hQ₂.symm.trans hQ₃
  obtain ⟨-, htl₁, hheap⟩ := ht hm₁
  have htl' : Q₁.mTail = some tl := htl₁.symm.trans htl
  exact (hheap tl htl').trans (h Q₁ tl hQ₁ hm₁ htl')

/-- INTERNAL: the tail a popper has read stays ahead while the others run. -/
theorem Ahead.rely {q : Q} {pt : Addr} {Q₁ : Queue Tid} {hd tl : Addr} {front : List Addr}
    (h : Ahead own s u q pt Q₁ hd tl front) (hr : Rely own own' u s s') :
    ∃ Q₂ tl', Ahead own' s' u q pt Q₂ hd tl' front := by
  obtain ⟨Q₂, hQ₂, hh, -⟩ := hr.queue q Q₁ h.queue
  obtain ⟨hm, hhd⟩ := hh h.held
  obtain ⟨hown, tl', htl', hcase⟩ := hr.front q Q₁ Q₂ h.queue hQ₂ h.held
  have hheap : ∀ a ∈ front, s'.heap a = s.heap a := fun a ha =>
    (hown a (h.owned a (by simp [ha]))).2 fun hEq => by
      obtain rfl : tl = a := by simpa using h.tail.symm.trans hEq
      exact h.behind ha
  refine ⟨Q₂, tl', hQ₂, hm, hhd.trans h.head, htl', ?_, h.nodup, ?_, ?_, fun hmem => ?_⟩
  · exact h.path.congr fun a ha => nextOf_congr (hheap a ha)
  · exact fun a ha => (hown a (h.owned a ha)).1
  · exact fun a ha => (h.filled a ha).congr (hheap a ha)
  · rcases hcase with heq | hne
    · obtain rfl : tl = tl' := by simpa using h.tail.symm.trans heq
      exact h.behind hmem
    · exact hne (h.owned tl' (by simp [hmem]))

theorem IsAhead.rely {q : Q} {pt : Addr} (h : IsAhead own s u q pt)
    (hr : Rely own own' u s s') : IsAhead own' s' u q pt := by
  obtain ⟨Q₁, hd, tl, front, ha⟩ := h
  obtain ⟨Q₂, tl', ha'⟩ := ha.rely hr
  exact ⟨Q₂, hd, tl', front, ha'⟩

theorem IsStrictlyAhead.rely {q : Q} {pt : Addr} (h : IsStrictlyAhead own s u q pt)
    (hr : Rely own own' u s s') : IsStrictlyAhead own' s' u q pt := by
  obtain ⟨Q₁, hd, tl, front, ha, hne⟩ := h
  obtain ⟨Q₂, tl', ha'⟩ := ha.rely hr
  exact ⟨Q₂, hd, tl', front, ha', hne⟩

theorem Inside.rely {c : Section Q} (h : Inside s u c) (hr : Rely own own' u s s') :
    Inside s' u c :=
  ⟨h.1, fun q hq => ⟨(h.2 q hq).1.rely hr, (h.2 q hq).2.rely hr⟩⟩

theorem Cleared.rely {c : Section Q} (h : Cleared s c) (hi : Inside s u c)
    (hr : Rely own own' u s s') : Cleared s' c := by
  cases c with
  | moveAssign this other =>
    intro Q₂ hQ₂
    obtain ⟨⟨Q₁, hQ₁, hm⟩, Q₃, tl, hQ₃, hmt, -⟩ := hi.2 this (by simp [Section.queues])
    obtain rfl : Q₁ = Q₃ := by simpa using hQ₁.symm.trans hQ₃
    obtain ⟨Q₄, hQ₄, hh, ht⟩ := hr.queue this Q₁ hQ₁
    obtain rfl : Q₂ = Q₄ := by simpa using hQ₂.symm.trans hQ₄
    rw [(hh hm).2, (ht hmt).2.1]
    exact h Q₁ hQ₁
  | _ => trivial

/-- INTERNAL: no assertion is disturbed by the steps of other threads. -/
theorem assertion_rely (hr : Rely own own' u s s') (p : Pc Q T) (h : assertion own u p s) :
    assertion own' u p s' := by
  cases p with
  | copyRange | lockTail => exact h.imp fun _ hy => hy.rely hr
  | constructData => exact ⟨h.1.rely hr, h.2.imp fun _ hy => hy.rely hr⟩
  | setInitialized | linkNext | moveTail =>
    exact h.imp fun _ hv => ⟨hv.1.rely hr, hv.2.imp fun _ hy => hy.rely hr⟩
  | unlockTail => exact TailNode.rely h hr
  | testInterrupt | lockTailMut | park | unlockHead | setStop | unlockStop =>
    exact HoldsHead.rely h hr
  | readTail => exact ⟨h.1.rely hr, h.2.rely hr⟩
  | unlockTailMut => exact ⟨h.1.rely hr, h.2.rely hr⟩
  | testEmpty | popLoop => exact IsAhead.rely h hr
  | popData | popNode => exact IsStrictlyAhead.rely h hr
  | acquire | release => exact fun q hq => (h q hq).rely hr
  | clearing => exact ⟨h.1.rely hr, h.2⟩
  | testQueue => exact ⟨h.1.rely hr, h.2⟩
  | moveQueue => exact ⟨h.1.rely hr, h.2.rely h.1 hr⟩
  | _ => trivial

end Stability

end UbuntuProjects.TsQueue
