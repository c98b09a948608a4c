import UbuntuProjects.Model.TsQueueBadAlloc
import UbuntuProjects.Model.TsQueueNode

/-!
# `ts_queue` with elements that lie over the members of their nodes

`m_storage` has one byte, so an element of more than 8 bytes lies over `m_next`, and one of
more than 16 bytes over `initialized` too. The steps of the queue that write a node are
modelled once more: what is written over another member changes that one as well, and
assigning to `m_next` deletes what its old bytes point to, whatever has put them there.

Bytes that point to no node, or from which no element can be read, leave a statement that
uses them without a step: its behaviour is undefined. All other steps are those of
`QueueStep`.
-/

set_option autoImplicit false

namespace UbuntuProjects.TsQueue

open Memory
open Memory.Storable (size align bytes ofBytes)

/-! ## Nodes -/

/-- A pointer as it is stored: the node with the number `a` has the address `a + 1`, and 0 is
the null pointer. -/
def pointerBytes (p : Option Addr) : List UInt8 := littleEndian 8 (p.elim 0 (· + 1))

def pointerOf (bs : List UInt8) : Option Addr :=
  match ofLittleEndian bs with
  | 0 => none
  | a + 1 => some a

section Node

variable {T : Type} [Storable T]

variable (T) in
/-- The offset of `m_next` from the element. -/
def nextOffset : ℕ := mNextAddr (size T) (align T) 0

variable (T) in
/-- The offset of `initialized` from the element. -/
def initializedOffset : ℕ := initializedAddr (size T) (align T) 0

/-- The two other members after the bytes `bs` were written where the element is. -/
def Node.overlay (nd : Node T) (bs : List UInt8) : Node T :=
  { nd with
    mNext :=
      if nextOffset T < bs.length then
        pointerOf (overwritten (nextOffset T) (pointerBytes nd.mNext) 0 bs)
      else nd.mNext
    initialized := (bs[initializedOffset T]?).elim nd.initialized (· != 0) }

/-- The element after the bytes `bs` were written at the given offset. -/
def Node.overwriteData (nd : Node T) (off : ℕ) (bs : List UInt8) : Node T :=
  { nd with data := nd.data.bind fun v => ofBytes (overwritten 0 (bytes v) off bs) }

/-- `alloc_traits::construct(s_alloc, get_data_addr(), ...)`
SRCLINE: threadsafe_queue.h:52-53 -/
def Node.construct (nd : Node T) (v : T) : Node T :=
  { nd.overlay (bytes v) with data := some v }

/-- `initialized=true`
SRCLINE: threadsafe_queue.h:54 -/
def Node.setInitialized (nd : Node T) : Node T :=
  { nd.overwriteData (initializedOffset T) [1] with initialized := true }

/-- The pointer that is written by an assignment to `m_next`.
SRCLINE: threadsafe_queue.h:313, 360, 368 -/
def Node.link (nd : Node T) (a : Addr) : Node T :=
  { nd.overwriteData (nextOffset T) (pointerBytes (some a)) with mNext := some a }

/-- Moving from the element leaves the value `w` in the node, which nobody reads again.
SRCLINE: threadsafe_queue.h:88, 110 -/
def Node.moveFrom (nd : Node T) (w : T) : Node T :=
  nd.overlay (bytes w)

/-- `m_next=std::move(next)` for the node at `a`: the new pointer is written, then the old one
is deleted. -/
inductive Links (heap : Addr → Option (Node T)) (a next : Addr) :
    (Addr → Option (Node T)) → Prop
  | link {heap' : Addr → Option (Node T)} {nd : Node T} : heap a = some nd →
      Deletes (Function.update heap a (some (nd.link next))) nd.mNext heap' →
      Links heap a next heap'

end Node

/-! ## Steps -/

/-- The control points whose next statement writes a node that is not new, or deletes what an
owning pointer holds. -/
def Pc.writesNode {Q T : Type} : Pc Q T → Prop
  | .copyRange _ _ (_ :: _) _ _ _ => True
  | .constructData _ _ _ _ => True
  | .setInitialized _ _ _ => True
  | .linkNext _ _ _ => True
  | .popData _ _ _ _ _ => True
  | .moveQueue (.moveAssign _ _) => True
  | _ => False

section Steps

variable {Tid Q T : Type} [DecidableEq Tid] [DecidableEq Q] [Storable T]

/-- `emplace` and `push_range`.
SRCLINE: threadsafe_queue.h:308-315, 349-370 -/
inductive OverlapPush (t : Tid) : Pc Q T → Shared Tid Q T → Pc Q T → Shared Tid Q T → Prop
  | copyRange {s : Shared Tid Q T} {q : Q} {v x : T} {rest : List T} {headSub tailSub a : Addr}
      {n : Notify} {nd : Node T} {heap' : Addr → Option (Node T)} :
      s.heap tailSub = some nd → s.heap a = none →
      Links ((s.setNode tailSub (nd.construct x).setInitialized).setNode a .fresh).heap
        tailSub a heap' →
      OverlapPush t (.copyRange q v (x :: rest) headSub tailSub n) s
        (.copyRange q v rest headSub a n) ⟨heap', s.queues⟩
  | constructData {s : Shared Tid Q T} {q : Q} {v : T} {sub : Sub} {n : Notify} {Q' : Queue Tid}
      {tl : Addr} {nd : Node T} :
      s.queues q = some Q' → Q'.mTail = some tl → s.heap tl = some nd →
      OverlapPush t (.constructData q v sub n) s (.setInitialized q sub n)
        (s.setNode tl (nd.construct v))
  | setInitialized {s : Shared Tid Q T} {q : Q} {sub : Sub} {n : Notify} {Q' : Queue Tid}
      {tl : Addr} {nd : Node T} :
      s.queues q = some Q' → Q'.mTail = some tl → s.heap tl = some nd →
      OverlapPush t (.setInitialized q sub n) s (.linkNext q sub n)
        (s.setNode tl nd.setInitialized)
  | linkNext {s : Shared Tid Q T} {q : Q} {sub : Sub} {n : Notify} {Q' : Queue Tid} {tl : Addr}
      {heap' : Addr → Option (Node T)} :
      s.queues q = some Q' → Q'.mTail = some tl → Links s.heap tl sub.first heap' →
      OverlapPush t (.linkNext q sub n) s (.moveTail q sub n) ⟨heap', s.queues⟩
  | other {p p' : Pc Q T} {s s' : Shared Tid Q T} : ¬p.writesNode → PushStep t p s p' s' →
      OverlapPush t p s p' s'

/-- The pops.
SRCLINE: threadsafe_queue.h:82-114, 151-293 -/
inductive OverlapPop (t : Tid) : Pc Q T → Shared Tid Q T → Pc Q T → Shared Tid Q T → Prop
  | popData {s : Shared Tid Q T} {q : Q} {k : Take} {possibleTail : Addr} {count : ℤ}
      {out : List T} {Q' : Queue Tid} {h : Addr} {nd : Node T} {v : T} (w : T) :
      s.queues q = some Q' → Q'.mHead = some h → s.heap h = some nd → nd.data = some v →
      OverlapPop t (.popData q k possibleTail count out) s
        (.popNode q k possibleTail count (out ++ [v])) (s.setNode h (nd.moveFrom w))
  | other {p p' : Pc Q T} {s s' : Shared Tid Q T} : ¬p.writesNode → PopStep t p s p' s' →
      OverlapPop t p s p' s'

/-- `clear`, `empty` and the move operations.
SRCLINE: threadsafe_queue.h:77-81, 123-149, 381-384 -/
inductive OverlapLocked (t : Tid) : Pc Q T → Shared Tid Q T → Pc Q T → Shared Tid Q T → Prop
  /-- `m_head=std::move(other.m_head)` deletes what `m_head` owned -/
  | moveAssign {s : Shared Tid Q T} {this other : Q} {D O : Queue Tid} {a : Addr}
      {heap' : Addr → Option (Node T)} :
      s.queues this = some D → s.queues other = some O → Deletes s.heap D.mHead heap' →
      heap' a = none →
      OverlapLocked t (.moveQueue (.moveAssign this other)) s
        (.release (.moveAssign this other) .unit)
        (((Shared.setNode ⟨heap', s.queues⟩ a .fresh).setQueue other
          { O with mHead := some a, mTail := some a }).setQueue
          this { D with mHead := O.mHead, mTail := O.mTail })
  | other {p p' : Pc Q T} {s s' : Shared Tid Q T} : ¬p.writesNode → LockedStep t p s p' s' →
      OverlapLocked t p s p' s'

/-- The steps of one thread. -/
inductive OverlapStep (t : Tid) :
    Pc Q T → Shared Tid Q T → Lab Q T → Pc Q T → Shared Tid Q T → Prop
  | client {p p' : Pc Q T} {s s' : Shared Tid Q T} {l : Lab Q T} :
      ClientStep t p s l p' s' → OverlapStep t p s l p' s'
  | push {p p' : Pc Q T} {s s' : Shared Tid Q T} :
      OverlapPush t p s p' s' → OverlapStep t p s none p' s'
  | pop {p p' : Pc Q T} {s s' : Shared Tid Q T} :
      OverlapPop t p s p' s' → OverlapStep t p s none p' s'
  | locked {p p' : Pc Q T} {s s' : Shared Tid Q T} :
      OverlapLocked t p s p' s' → OverlapStep t p s none p' s'

end Steps

end UbuntuProjects.TsQueue
