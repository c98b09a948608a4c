import UbuntuProjects.Analysis.TfgFlistInvariant

/-!
# `tfg_flist`: no deadlock

A thread that is about to lock the mutex of a node holds at most the one of the node
before it. So whoever waits for a mutex waits for a node behind every node it holds, the
owner of that mutex is in the middle of a call, and if it waits as well, then for a node
further behind. The chain ends, so someone can go on (`deadlock_free`).
-/

set_option autoImplicit false

namespace UbuntuProjects.TfgFlist

open Concurrency (Config Run anyStep Linked)

variable {Tid L T : Type}

/-- The node whose mutex a thread is about to lock. -/
def Pc.waitsFor : Pc L T → Option Addr
  | .pushLock _ _ | .emptyLock | .scanStart _ _ | .removeStart _ _ _ => some beforeBegin
  | .scanLock _ _ cur | .removeLock _ _ _ cur => some cur
  | _ => none

/-- The nodes of the list are the one of `m_before_begin` and `xs`, in this order. -/
def Chain (s : Shared Tid T) (xs : List Addr) : Prop :=
  Linked (nextOf s.heap) beforeBegin xs

section Steps

variable {g : Ghost Tid} {s : Shared Tid T} {t : Tid} {p : Pc L T} {w : Addr}

/-- INTERNAL: a thread waits for a node of the chain. -/
theorem waitsFor_mem (hI : SharedInv g s) (hp : assertion g t p s) (hw : p.waitsFor = some w) :
    w ∈ g.nodes := by
  have hplaces := hp.2
  cases p with
  | pushLock | emptyLock | scanStart | removeStart =>
    obtain rfl := Option.some.inj hw
    exact List.mem_cons_self ..
  | scanLock k prev cur | removeLock k once prev cur =>
    obtain rfl := Option.some.inj hw
    exact (hI.next hplaces.1 hplaces.2).1
  | _ => cases hw

/-- INTERNAL: a thread waits for a node behind every node it holds. -/
theorem owned_before (hI : SharedInv g s) (hp : assertion g t p s) (hw : p.waitsFor = some w)
    {a : Addr} (ha : a ∈ p.owned) : a ∈ g.nodes ∧ g.nodes.idxOf a < g.nodes.idxOf w := by
  have hplaces := hp.2
  cases p with
  | pushLock | emptyLock | scanStart | removeStart => cases ha
  | scanLock k prev cur | removeLock k once prev cur =>
    obtain rfl := Option.some.inj hw
    obtain rfl := List.mem_singleton.mp ha
    exact ⟨hplaces.1, hI.linked.idxOf_lt hplaces.1 hplaces.2⟩
  | _ => cases hw

/-- INTERNAL: an unfinished call can go on if the mutex it waits for is free. -/
theorem canStep (hI : SharedInv g s) (hp : assertion g t p s) (hidle : p ≠ .idle)
    (hfree : ∀ w nd, p.waitsFor = some w → s.heap w = some nd → nd.mMut = none) :
    ∃ l p' s', FlistStep t p s l p' s' := by
  have hplaces := hp.2
  obtain ⟨b, hb⟩ := Option.isSome_iff_exists.mp hI.front
  cases p with
  | idle => exact absurd rfl hidle
  | returning r => exact ⟨_, _, _, .client (.ret s r)⟩
  | makeNode v => exact ⟨_, _, _, .client (.makeNode s v)⟩
  | pushLock v a => exact ⟨_, _, _, .client (.pushLock hb (hfree _ _ rfl hb))⟩
  | pushLink v a => exact ⟨_, _, _, .client (.pushLink hb hplaces.2)⟩
  | emptyLock => exact ⟨_, _, _, .client (.emptyLock hb (hfree _ _ rfl hb))⟩
  | emptyTest => exact ⟨_, _, _, .client (.emptyTest hb)⟩
  | scanStart body l => exact ⟨_, _, _, .scan (.start hb (hfree _ _ rfl hb))⟩
  | scanTest k prev =>
    obtain ⟨nd, hnd⟩ := hI.alive hplaces
    exact ⟨_, _, _, .scan (.test hnd)⟩
  | scanLock k prev cur =>
    obtain ⟨nd, hnd⟩ := hI.alive (hI.next hplaces.1 hplaces.2).1
    exact ⟨_, _, _, .scan (.lock hnd (hfree _ _ rfl hnd))⟩
  | scanUnlockPrev k prev cur =>
    obtain ⟨nd, hnd⟩ := hI.alive hplaces.1
    exact ⟨_, _, _, .scan (.unlockPrev hnd)⟩
  | scanVisit k cur =>
    obtain ⟨nd, v, hnd, hv⟩ := hI.element cur (List.mem_of_ne_of_mem hplaces.2 hplaces.1)
    exact ⟨_, _, _, .scan (.visit hnd hv)⟩
  | removeStart q once l => exact ⟨_, _, _, .remove (.start hb (hfree _ _ rfl hb))⟩
  | removeTest k once prev =>
    obtain ⟨nd, hnd⟩ := hI.alive hplaces
    exact ⟨_, _, _, .remove (.test hnd)⟩
  | removeLock k once prev cur =>
    obtain ⟨nd, hnd⟩ := hI.alive (hI.next hplaces.1 hplaces.2).1
    exact ⟨_, _, _, .remove (.lock hnd (hfree _ _ rfl hnd))⟩
  | removeVisit k once prev cur =>
    obtain ⟨nd, v, hnd, hv⟩ := hI.element cur (hI.next hplaces.1 hplaces.2).2.1
    exact ⟨_, _, _, .remove (.visit hnd hv)⟩
  | removeUnlockPrev k once prev cur =>
    obtain ⟨nd, hnd⟩ := hI.alive hplaces.1
    exact ⟨_, _, _, .remove (.unlockPrev hnd)⟩
  | unlink k once prev cur =>
    obtain ⟨p, hp⟩ := hI.alive hplaces.1
    obtain ⟨nd, hnd⟩ := hI.alive (hI.next hplaces.1 hplaces.2).1
    exact ⟨_, _, _, .remove (.unlink hp hnd)⟩
  | unlockCur k once prev cur =>
    obtain ⟨nd, hnd⟩ := Option.isSome_iff_exists.mp (hI.apart cur t hplaces.2).2
    exact ⟨_, _, _, .remove (.unlockCur hnd)⟩
  | destroy k once prev cur =>
    obtain ⟨nd, hnd⟩ := Option.isSome_iff_exists.mp (hI.apart cur t hplaces.2.1).2
    exact ⟨_, _, _, .remove (.destroy hnd)⟩
  | unwind prev cur r =>
    obtain ⟨nd, hnd⟩ := hI.alive (hI.next hplaces.1 hplaces.2).1
    exact ⟨_, _, _, .remove (.unwind hnd)⟩
  | unlock a r =>
    obtain ⟨nd, hnd⟩ := hI.alive hplaces
    exact ⟨_, _, _, .client (.unlock hnd)⟩

end Steps

/-- How far behind in the chain a thread waits; who waits for nothing is last. -/
def waitRank (g : Ghost Tid) (p : Pc L T) : ℕ :=
  match p.waitsFor with
  | some w => g.nodes.idxOf w
  | none => g.nodes.length

section Runs

variable [DecidableEq Tid] {tr : List (Tid × Lab L T)} {c : Config Tid (Pc L T) (Shared Tid T)}

/-- In every state every thread that is about to lock a mutex waits for a node behind all
nodes whose mutexes it owns, and if a call is unfinished, an unfinished call can take its
next step. -/
theorem deadlock_free (h : Run FlistStep anyStep (newList Tid L T) tr c) :
    (∃ xs, Chain c.sh xs ∧ ∀ t w, (c.pc t).waitsFor = some w →
      w ∈ beforeBegin :: xs ∧ ∀ a, Owns c.sh.heap t a → a ∈ beforeBegin :: xs ∧
        (beforeBegin :: xs).idxOf a < (beforeBegin :: xs).idxOf w) ∧
    ((∃ t, c.pc t ≠ .idle) →
      ∃ u, c.pc u ≠ .idle ∧ ∃ l p' s', FlistStep u (c.pc u) c.sh l p' s') := by
  obtain ⟨g, hI, hloc⟩ := outline_run h
  refine ⟨⟨g.chain, hI.linked, fun t w hw => ⟨waitsFor_mem hI (hloc t) hw, fun a ha =>
    owned_before hI (hloc t) hw (((hloc t).1 a).mp ha)⟩⟩, ?_⟩
  rintro ⟨t, ht⟩
  refine Concurrency.exists_canStep (fun t => waitRank g (c.pc t)) g.nodes.length (fun t => ?_)
    (fun t ht => ?_) ht
  · unfold waitRank
    split
    · exact List.idxOf_le_length
    · exact Nat.le_refl _
  · by_cases hfree : ∀ w nd, (c.pc t).waitsFor = some w → c.sh.heap w = some nd → nd.mMut = none
    · exact .inl (canStep hI (hloc t) ht hfree)
    · -- the mutex belongs to a thread in the middle of a call
      push Not at hfree
      obtain ⟨w, nd, hw, hnd, hm⟩ := hfree
      obtain ⟨u, hu⟩ := Option.ne_none_iff_exists'.mp hm
      have hmem : w ∈ (c.pc u).owned := ((hloc u).1 w).mp ⟨nd, hnd, hu⟩
      refine .inr ⟨u, fun hidle => ?_, ?_⟩
      · rw [hidle] at hmem
        cases hmem
      · have hlt := List.idxOf_lt_length_of_mem (waitsFor_mem hI (hloc t) hw)
        simp only [waitRank, hw]
        cases hwu : (c.pc u).waitsFor with
        | none => exact hlt
        | some w' => exact (owned_before hI (hloc u) hwu hmem).2

/-- A traversal waits for the mutex of `m_before_begin`, which a removal holds. -/
theorem deadlock_free_waiting :
    ∃ (c : Config Bool (Pc Unit ℕ) (Shared Bool ℕ)) (tr : List (Bool × Lab Unit ℕ)),
      Run FlistStep anyStep (newList Bool Unit ℕ) tr c ∧
        (c.pc true).waitsFor = some beforeBegin ∧ Owns c.sh.heap false beforeBegin ∧
        ∃ u, c.pc u ≠ .idle ∧ ∃ l p' s', FlistStep u (c.pc u) c.sh l p' s' := by
  have h₁ := (Run.nil : Run FlistStep anyStep (newList Bool Unit ℕ) [] _).snoc
    false trivial (.client (.call _ (.removeIf (fun l v => (l, v, some (v == 3))) ())))
  have h₂ := h₁.snoc false trivial (.remove (.start rfl rfl))
  have h₃ := h₂.snoc true trivial (.client (.call _ (.forEach (fun l v => (l, v, some l)) ())))
  exact ⟨_, _, h₃, rfl, ⟨_, rfl, rfl⟩, (deadlock_free h₃).2 ⟨true, fun h => by cases h⟩⟩

end Runs

end UbuntuProjects.TfgFlist
