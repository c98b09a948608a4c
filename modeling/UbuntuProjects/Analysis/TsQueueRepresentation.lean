import UbuntuProjects.Analysis.TsQueueInvariant

/-!
# The representation of `ts_queue` in every reachable state

From the proof outline: a queue in whose critical sections no thread is represents a
sequence of initialized nodes with one empty node at the end (`IsRepresented`), and a
popper only touches initialized nodes before the tail it has read, which no pusher
writes (`representation_run`).
-/

set_option autoImplicit false

namespace UbuntuProjects.TsQueue

open Concurrency

variable {Tid Q T : Type}

/-- The control points between the acquisition of a mutex of `q` and its release. -/
def Pc.critical : Pc Q T → Q → Prop
  | .acquire _, _ => False
  | .release _ _, _ => False
  | p, q => p.inHead q ∨ p.inTail q

/-- The tail that a popper has read since it last acquired `m_head_mut`. -/
def Pc.possibleTail : Pc Q T → Option (Q × Addr)
  | .unlockTailMut q _ _ possibleTail => some (q, possibleTail)
  | .testEmpty q _ _ possibleTail => some (q, possibleTail)
  | .popLoop q _ possibleTail _ _ => some (q, possibleTail)
  | .popData q _ possibleTail _ _ => some (q, possibleTail)
  | .popNode q _ possibleTail _ _ => some (q, possibleTail)
  | _ => none

/-- The node whose element or link the next statement of a pop reads, or which it
deletes. -/
def Pc.popped (s : Shared Tid Q T) : Pc Q T → Option Addr
  | .popData q _ _ _ _ => (s.queues q).bind Queue.mHead
  | .popNode q _ _ _ _ => (s.queues q).bind Queue.mHead
  | _ => none

/-- The live node that the next statement of a push writes. -/
def Pc.written (s : Shared Tid Q T) : Pc Q T → Option Addr
  | .copyRange _ _ _ _ tailSub _ => some tailSub
  | .constructData q _ _ _ => (s.queues q).bind Queue.mTail
  | .setInitialized q _ _ => (s.queues q).bind Queue.mTail
  | .linkNext q _ _ => (s.queues q).bind Queue.mTail
  | _ => none

section Accesses

variable [DecidableEq Q] {s s' : Shared Tid Q T} {t : Tid} {p p' : Pc Q T} {a : Addr}

/-- A push leaves every live node alone but the one it writes. -/
theorem pushStep_written (h : PushStep t p s p' s') (hlive : (s.heap a).isSome)
    (ha : p.written s ≠ some a) : s'.heap a = s.heap a := by
  cases h with
  | @makeNode _ _ _ _ b hb | @makeSub _ _ _ _ _ _ b hb =>
    refine Function.update_of_ne ?_ _ _
    rintro rfl
    simp [hb] at hlive
  | @copyRange _ _ _ _ _ _ tailSub b _ _ _ hb =>
    have hab : a ≠ b := by
      rintro rfl
      simp [hb] at hlive
    have hat : a ≠ tailSub := by
      rintro rfl
      simp [Pc.written] at ha
    simp [Function.update_of_ne hab, Function.update_of_ne hat]
  | constructData hQ htl | setInitialized hQ htl | linkNext hQ htl =>
    refine Function.update_of_ne ?_ _ _
    rintro rfl
    simp [Pc.written, hQ, htl] at ha
  | _ => rfl

/-- A pop leaves every node alone but the one it removes. -/
theorem popStep_popped [DecidableEq Tid] (h : PopStep t p s p' s') (ha : p.popped s ≠ some a) :
    s'.heap a = s.heap a := by
  cases h with
  | popNode hQ hhd =>
    refine Function.update_of_ne ?_ _ _
    rintro rfl
    simp [Pc.popped, hQ, hhd] at ha
  | _ => rfl

end Accesses

/-- Following the links from `m_head` leads through distinct initialized nodes to
`m_tail`, whose link is null and which is not initialized. -/
def IsRepresented (s : Shared Tid Q T) (Q' : Queue Tid) : Prop :=
  ∃ hd tl xs nd, Q'.mHead = some hd ∧ Q'.mTail = some tl ∧ Path (nextOf s.heap) hd xs tl ∧
    (xs ++ [tl]).Nodup ∧ s.heap tl = some nd ∧ nd.mNext = none ∧ nd.initialized = false ∧
    ∀ a ∈ xs, ∃ nd', s.heap a = some nd' ∧ nd'.initialized = true

/-- The tail `pt` that thread `t` has read is a live node on the way from `m_head` to
`m_tail`. A node that `t` is about to read or to delete is initialized and strictly
before it, no thread is about to write that node, and none of the steps `push` changes it. -/
def TailIsSafe (push : Tid → Pc Q T → Shared Tid Q T → Pc Q T → Shared Tid Q T → Prop)
    (c : Config Tid (Pc Q T) (Shared Tid Q T)) (t : Tid) (q : Q) (pt : Addr) : Prop :=
  ∃ Q' hd tl front back, c.sh.queues q = some Q' ∧ Q'.mHeadMut = some t ∧
    Q'.mHead = some hd ∧ Q'.mTail = some tl ∧ Path (nextOf c.sh.heap) hd front pt ∧
    Path (nextOf c.sh.heap) pt back tl ∧ (front ++ back ++ [tl]).Nodup ∧
    (c.sh.heap pt).isSome ∧
    ∀ a, (c.pc t).popped c.sh = some a →
      a ∈ front ∧ (∃ nd, c.sh.heap a = some nd ∧ nd.initialized = true) ∧
      ∀ u, (c.pc u).written c.sh ≠ some a ∧
        ∀ p' s', push u (c.pc u) c.sh p' s' → s'.heap a = c.sh.heap a

section Outline

variable {own : Owners Tid Q} {s : Shared Tid Q T} {t : Tid} {q : Q} {p : Pc Q T} {pt a : Addr}

theorem Filled.isInitialized {heap : Addr → Option (Node T)} (h : Filled heap a) :
    ∃ nd, heap a = some nd ∧ nd.initialized = true := by
  obtain ⟨nd, v, hnd, -, hi⟩ := h
  exact ⟨nd, hnd, hi⟩

/-- INTERNAL: outside the critical sections the last node is fresh, also for a thread
that still owns a mutex inside `std::scoped_lock`. -/
theorem fresh_of_not_critical {Q' : Queue Tid} {tl : Addr} (h : assertion own t p s)
    (hown : OwnsAt s t p) (hp : ¬p.critical q) (hQ : s.queues q = some Q')
    (hm : Q'.mTailMut = some t) (htl : Q'.mTail = some tl) : s.heap tl = some .fresh := by
  have hin := (hown q Q' hQ).2 hm
  cases p with
  | acquire c | release c => exact h q hin Q' tl hQ hm htl
  | _ => exact absurd (.inr hin) hp

/-- INTERNAL: the outline gives the tail that was read. -/
theorem isAhead_of_possibleTail (h : assertion own t p s) (hp : p.possibleTail = some (q, pt)) :
    ∃ Q' hd tl front, Ahead own s t q pt Q' hd tl front ∧
      ((p.popped s).isSome → hd ≠ pt ∧ p.popped s = some hd) := by
  cases p with
  | unlockTailMut q' k last pt' =>
    obtain ⟨rfl, rfl⟩ : q' = q ∧ pt' = pt := by simpa [Pc.possibleTail] using hp
    obtain ⟨Q', hd, tl, front, ha⟩ := h.1
    exact ⟨Q', hd, tl, front, ha, by simp [Pc.popped]⟩
  | testEmpty q' k last pt' | popLoop q' k pt' count out =>
    obtain ⟨rfl, rfl⟩ : q' = q ∧ pt' = pt := by simpa [Pc.possibleTail] using hp
    obtain ⟨Q', hd, tl, front, ha⟩ := h
    exact ⟨Q', hd, tl, front, ha, by simp [Pc.popped]⟩
  | popData q' k pt' count out | popNode q' k pt' count out =>
    obtain ⟨rfl, rfl⟩ : q' = q ∧ pt' = pt := by simpa [Pc.possibleTail] using hp
    obtain ⟨Q', hd, tl, front, ha, hne⟩ := h
    exact ⟨Q', hd, tl, front, ha, fun _ => ⟨hne, by simp [Pc.popped, ha.queue, ha.head]⟩⟩
  | _ => simp [Pc.possibleTail] at hp

/-- INTERNAL: a pusher writes a node of its own or the last node of a queue. -/
theorem written_cases (hI : SharedInv own s) (h : assertion own t p s)
    (ha : p.written s = some a) :
    own a = some (.thread t) ∨
      ∃ q Q', s.queues q = some Q' ∧ Q'.mTail = some a ∧ own a = some (.queue q) := by
  have hlast : ∀ q, (s.queues q).bind Queue.mTail = some a →
      ∃ q Q', s.queues q = some Q' ∧ Q'.mTail = some a ∧ own a = some (.queue q) := by
    intro q hq
    obtain ⟨Q', hQ', htl⟩ := Option.bind_eq_some_iff.mp hq
    exact ⟨q, Q', hQ', htl, hI.owned_tail hQ' htl⟩
  cases p with
  | copyRange q v rest headSub tailSub n =>
    obtain rfl : tailSub = a := by simpa [Pc.written] using ha
    obtain ⟨ys, hs⟩ := h
    exact .inl (hs.owned tailSub (by simp))
  | constructData q v sub n | setInitialized q sub n | linkNext q sub n =>
    exact .inr (hlast q ha)
  | _ => simp [Pc.written] at ha

end Outline

/-- In every reachable state of any interleaving of the operations: a queue in whose
critical sections no thread is is represented, and the tail that a popper has read is
safe. -/
theorem representation_run [DecidableEq Tid] [DecidableEq Q]
    {c : Config Tid (Pc Q T) (Shared Tid Q T)} {tr : List (Tid × Lab Q T)}
    (h : Run QueueStep anyStep (noQueues Tid Q T) tr c) :
    (∀ q Q', c.sh.queues q = some Q' → (∀ t, ¬(c.pc t).critical q) → IsRepresented c.sh Q') ∧
      ∀ t q pt, (c.pc t).possibleTail = some (q, pt) → TailIsSafe PushStep c t q pt := by
  obtain ⟨own, hI, hloc⟩ := outline_run outline_noQueues locksExact_noQueues h
  have hlocks := locks_run locksExact_noQueues h
  refine ⟨fun q Q' hQ hout => ?_, fun t q pt hpt => ?_⟩
  · obtain ⟨hd, tl, xs, hrep⟩ := hI.rep q Q' hQ
    have hfresh : c.sh.heap tl = some .fresh := by
      cases hm : Q'.mTailMut with
      | none => exact hI.quiet q Q' tl hQ hm hrep.tail
      | some t => exact fresh_of_not_critical (hloc t) (hlocks t) (hout t) hQ hm hrep.tail
    exact ⟨hd, tl, xs, .fresh, hrep.head, hrep.tail, hrep.path, hrep.nodup, hfresh, rfl, rfl,
      fun a ha => (hrep.filled a ha).isInitialized⟩
  · obtain ⟨Q', hd, tl, front, ha, hpop⟩ := isAhead_of_possibleTail (hloc t) hpt
    obtain ⟨hd', tl', xs, hrep⟩ := hI.rep q Q' ha.queue
    obtain rfl : hd = hd' := by simpa using ha.head.symm.trans hrep.head
    obtain rfl : tl = tl' := by simpa using ha.tail.symm.trans hrep.tail
    obtain ⟨back, rfl, hback⟩ := ha.path.prefix_of_notMem hrep.path ha.behind
    refine ⟨Q', hd, tl, front, back, ha.queue, ha.held, ha.head, ha.tail, ha.path, hback,
      hrep.nodup, hI.live pt _ (ha.owned pt (by simp)), fun a hpa => ?_⟩
    obtain ⟨hne, hhd⟩ := hpop (by simp [hpa])
    obtain rfl : hd = a := by simpa using hhd.symm.trans hpa
    have hmem : hd ∈ front := by
      obtain ⟨_, _, rfl, -, -⟩ := ha.path.head_mem hne
      simp
    have howned := ha.owned hd (by simp [hmem])
    have hnobody : ∀ u, (c.pc u).written c.sh ≠ some hd := by
      intro u hw
      rcases written_cases hI (hloc u) hw with hu | ⟨q₂, Q₂, hQ₂, htl₂, hu⟩
      · simp [howned] at hu
      · obtain rfl : q = q₂ := by simpa using howned.symm.trans hu
        obtain rfl : Q' = Q₂ := by simpa using ha.queue.symm.trans hQ₂
        obtain rfl : tl = hd := by simpa using ha.tail.symm.trans htl₂
        exact ha.behind hmem
    exact ⟨hmem, (ha.filled hd hmem).isInitialized, fun u => ⟨hnobody u, fun p' s' hs =>
      pushStep_written hs (hI.live hd _ howned) (hnobody u)⟩⟩

end UbuntuProjects.TsQueue
