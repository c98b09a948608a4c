import UbuntuProjects.Model.TfgFlist
import UbuntuProjects.Concurrency.Path

/-!
# `tfg_flist`: what a thread knows at each control point

The ghost value is the chain of nodes behind the one of `m_before_begin`, and for each
node outside the chain the thread it belongs to: the one that is about to push it or has
unlinked it. A thread owns exactly the mutexes its control point says
(`Pc.owned`), the nodes of its pointers lie in the chain or are its own, and while it owns
the mutex of a node in the chain the link it has read from that node is the link the node
has.

`Rely` is what the steps of the other threads leave to a thread: a node whose mutex it
owns keeps its contents and its place in the chain, and a node of its own is not touched.
-/

set_option autoImplicit false

namespace UbuntuProjects.TfgFlist

open Concurrency (Linked)

variable {Tid L T : Type}

/-! ## The assertions -/

/-- Where the link of a node points. -/
def nextOf (heap : Addr → Option (Node Tid T)) (a : Addr) : Option Addr :=
  (heap a).bind Node.mNext

/-- Thread `t` owns the mutex of node `a`. -/
def Owns (heap : Addr → Option (Node Tid T)) (t : Tid) (a : Addr) : Prop :=
  ∃ nd, heap a = some nd ∧ nd.mMut = some t

/-- The nodes in the chain behind `m_before_begin` in order, and the owners of the nodes
outside it. -/
structure Ghost (Tid : Type) where
  chain : List Addr
  priv : Addr → Option Tid

/-- The node of `m_before_begin` and the nodes behind it. -/
def Ghost.nodes (g : Ghost Tid) : List Addr := beforeBegin :: g.chain

/-- The assertion about the shared state. -/
structure SharedInv (g : Ghost Tid) (s : Shared Tid T) : Prop where
  linked : Linked (nextOf s.heap) beforeBegin g.chain
  front : (s.heap beforeBegin).isSome
  element : ∀ a ∈ g.chain, ∃ nd v, s.heap a = some nd ∧ nd.mPdata = some v
  apart : ∀ a t, g.priv a = some t → a ∉ g.nodes ∧ (s.heap a).isSome
  fresh : ∀ a, s.made ≤ a → s.heap a = none

/-- The nodes whose mutexes a thread owns. -/
def Pc.owned : Pc L T → List Addr
  | .pushLink _ _ | .emptyTest => [beforeBegin]
  | .scanTest _ prev | .scanLock _ prev _ => [prev]
  | .scanUnlockPrev _ prev cur => [prev, cur]
  | .scanVisit _ cur => [cur]
  | .removeTest _ _ prev | .removeLock _ _ prev _ => [prev]
  | .removeVisit _ _ prev cur | .removeUnlockPrev _ _ prev cur | .unlink _ _ prev cur
  | .unlockCur _ _ prev cur | .unwind prev cur _ => [prev, cur]
  | .destroy _ _ prev _ => [prev]
  | .unlock a _ => [a]
  | _ => []

/-- What thread `t` knows about the nodes it points to. -/
def Places (g : Ghost Tid) (t : Tid) (heap : Addr → Option (Node Tid T)) : Pc L T → Prop
  | .pushLock v a | .pushLink v a =>
    g.priv a = some t ∧ heap a = some ⟨none, some v, none⟩
  | .scanTest _ prev | .removeTest _ _ prev | .unlock prev _ => prev ∈ g.nodes
  | .scanLock _ prev cur | .scanUnlockPrev _ prev cur | .removeLock _ _ prev cur
  | .removeVisit _ _ prev cur | .removeUnlockPrev _ _ prev cur | .unlink _ _ prev cur
  | .unwind prev cur _ => prev ∈ g.nodes ∧ nextOf heap prev = some cur
  | .scanVisit _ cur => cur ∈ g.nodes ∧ cur ≠ beforeBegin
  | .unlockCur _ _ prev cur => prev ∈ g.nodes ∧ g.priv cur = some t
  | .destroy _ _ prev cur =>
    prev ∈ g.nodes ∧ g.priv cur = some t ∧ ∃ nd, heap cur = some nd ∧ nd.mMut = none
  | _ => True

/-- The assertion of thread `t` at a control point. -/
def assertion (g : Ghost Tid) (t : Tid) (p : Pc L T) (s : Shared Tid T) : Prop :=
  (∀ a, Owns s.heap t a ↔ a ∈ p.owned) ∧ Places g t s.heap p

/-! ## What the other threads leave -/

/-- What thread `u` may rely on when another thread takes a step. -/
structure Rely (u : Tid) (g : Ghost Tid) (heap : Addr → Option (Node Tid T)) (g' : Ghost Tid)
    (heap' : Addr → Option (Node Tid T)) : Prop where
  owned : ∀ a, Owns heap u a → heap' a = heap a
  gained : ∀ a, Owns heap' u a → Owns heap u a
  chain : ∀ a ∈ g.nodes, Owns heap u a → a ∈ g'.nodes
  priv : ∀ a, g.priv a = some u → g'.priv a = some u ∧ heap' a = heap a

section Relies

variable {g g' g'' : Ghost Tid} {heap heap' heap'' : Addr → Option (Node Tid T)} {t u : Tid}

/-- INTERNAL: a thread owns the mutexes it owned before. -/
theorem Rely.owns (h : Rely u g heap g' heap') {a : Addr} :
    Owns heap' u a ↔ Owns heap u a := by
  refine ⟨h.gained a, fun ho => ?_⟩
  obtain ⟨nd, hnd, hm⟩ := ho
  exact ⟨nd, (h.owned a ⟨nd, hnd, hm⟩).trans hnd, hm⟩

/-- INTERNAL: nothing happens. -/
theorem Rely.refl (u : Tid) (g : Ghost Tid) (heap : Addr → Option (Node Tid T)) :
    Rely u g heap g heap :=
  ⟨fun _ _ => rfl, fun _ h => h, fun _ h _ => h, fun _ h => ⟨h, rfl⟩⟩

/-- INTERNAL: two changes in a row. -/
theorem Rely.trans (h : Rely u g heap g' heap') (h' : Rely u g' heap' g'' heap'') :
    Rely u g heap g'' heap'' where
  owned a ha := (h'.owned a (h.owns.mpr ha)).trans (h.owned a ha)
  gained a ha := h.gained a (h'.gained a ha)
  chain a ha ho := h'.chain a (h.chain a ha ho) (h.owns.mpr ho)
  priv a ha := by
    obtain ⟨hp, hh⟩ := h.priv a ha
    exact ⟨(h'.priv a hp).1, (h'.priv a hp).2.trans hh⟩

/-- The assertions of a thread are kept by the steps of the others. -/
theorem assertion_rely {s s' : Shared Tid T} (h : Rely u g s.heap g' s'.heap) (p : Pc L T)
    (hp : assertion g u p s) : assertion g' u p s' := by
  obtain ⟨hown, hplaces⟩ := hp
  refine ⟨fun a => h.owns.trans (hown a), ?_⟩
  have hstay : ∀ a ∈ p.owned, a ∈ g.nodes → a ∈ g'.nodes := fun a ha hn =>
    h.chain a hn ((hown a).mpr ha)
  have hnext : ∀ a ∈ p.owned, nextOf s'.heap a = nextOf s.heap a := fun a ha => by
    rw [nextOf, nextOf, h.owned a ((hown a).mpr ha)]
  cases p with
  | pushLock v a | pushLink v a =>
    exact ⟨(h.priv a hplaces.1).1, (h.priv a hplaces.1).2.trans hplaces.2⟩
  | scanTest k prev | removeTest k once prev | unlock prev r =>
    exact hstay prev (by simp [Pc.owned]) hplaces
  | scanLock k prev cur | scanUnlockPrev k prev cur | removeLock k once prev cur
  | removeVisit k once prev cur | removeUnlockPrev k once prev cur | unlink k once prev cur
  | unwind prev cur r =>
    exact ⟨hstay prev (by simp [Pc.owned]) hplaces.1,
      (hnext prev (by simp [Pc.owned])).trans hplaces.2⟩
  | scanVisit k cur => exact ⟨hstay cur (by simp [Pc.owned]) hplaces.1, hplaces.2⟩
  | unlockCur k once prev cur =>
    exact ⟨hstay prev (by simp [Pc.owned]) hplaces.1, (h.priv cur hplaces.2).1⟩
  | destroy k once prev cur =>
    obtain ⟨hprev, hpriv, nd, hnd, hm⟩ := hplaces
    obtain ⟨hpriv', hheap⟩ := h.priv cur hpriv
    exact ⟨hstay prev (by simp [Pc.owned]) hprev, hpriv', nd, hheap.trans hnd, hm⟩
  | _ => trivial

end Relies

end UbuntuProjects.TfgFlist
