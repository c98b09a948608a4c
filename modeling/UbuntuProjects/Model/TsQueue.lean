import UbuntuProjects.Concurrency.Program
import UbuntuProjects.Concurrency.Linearizable
import Mathlib.Data.Int.Notation

/-!
# `ts_queue`: a linked queue with two locks

The model of `ts_adv::ts_queue` (threadsafe_queue.h). The nodes live in one heap; a
queue object holds its two mutexes, its condition variable (the list of the threads
parked in it), the interrupt flag, the owning pointer `m_head` and the pointer `m_tail`
to the last node, which carries no element. Any number of queue objects and threads
share the heap.

A thread is at a control point (`Pc`) of the operation it executes, and its steps are
the statements of that operation: each acquisition and release of a mutex, each read and
write of a node or of a member, parking in and waking from the condition variable. Only
the statements that touch memory no other thread can reach are put together.

The operations that wait, pop one element or pop many are one family (`Take`), and so
are the pushes (`emplace` with or without a notification, `push_range`) and the
operations that take both mutexes of one or two queues with `std::scoped_lock`
(`Section`). `std::scoped_lock` acquires its mutexes in any order and may give up the
ones it holds and start again.
-/

set_option autoImplicit false

namespace UbuntuProjects.TsQueue

open Concurrency (Event)

/-! ## The state -/

/-- Addresses of nodes. -/
abbrev Addr : Type := ℕ

/-- `ts_queue::node`: the object constructed in `m_storage`, if any, the owning pointer
`m_next` and the flag `initialized`.
SRCLINE: threadsafe_queue.h:25-63 -/
structure Node (T : Type) where
  data : Option T
  mNext : Option Addr
  initialized : Bool

/-- The node made by `node()`.
SRCLINE: threadsafe_queue.h:34 -/
def Node.fresh {T : Type} : Node T := ⟨none, none, false⟩

/-- The members of a queue object. A mutex is the thread that owns it; `m_cb` is the
list of the threads parked in it that nobody has notified.
SRCLINE: threadsafe_queue.h:70-75 -/
structure Queue (Tid : Type) where
  mHeadMut : Option Tid
  mTailMut : Option Tid
  mCb : List Tid
  mInterruptWaiting : Bool
  mHead : Option Addr
  mTail : Option Addr

/-- The heap, where a dead node is `none`, and the queue objects constructed so far. -/
structure Shared (Tid Q T : Type) where
  heap : Addr → Option (Node T)
  queues : Q → Option (Queue Tid)

section Updates

variable {Tid Q T : Type} [DecidableEq Q]

/-- Writing a node, also one just allocated. -/
def Shared.setNode (s : Shared Tid Q T) (a : Addr) (n : Node T) : Shared Tid Q T :=
  { s with heap := Function.update s.heap a (some n) }

/-- Deleting a node. -/
def Shared.freeNode (s : Shared Tid Q T) (a : Addr) : Shared Tid Q T :=
  { s with heap := Function.update s.heap a none }

/-- Writing the members of a queue object. -/
def Shared.setQueue (s : Shared Tid Q T) (q : Q) (Q' : Queue Tid) : Shared Tid Q T :=
  { s with queues := Function.update s.queues q (some Q') }

omit [DecidableEq Q] in
@[simp] theorem Shared.setNode_heap (s : Shared Tid Q T) (a : Addr) (n : Node T) :
    (s.setNode a n).heap = Function.update s.heap a (some n) := rfl

omit [DecidableEq Q] in
@[simp] theorem Shared.setNode_queues (s : Shared Tid Q T) (a : Addr) (n : Node T) :
    (s.setNode a n).queues = s.queues := rfl

omit [DecidableEq Q] in
@[simp] theorem Shared.freeNode_heap (s : Shared Tid Q T) (a : Addr) :
    (s.freeNode a).heap = Function.update s.heap a none := rfl

omit [DecidableEq Q] in
@[simp] theorem Shared.freeNode_queues (s : Shared Tid Q T) (a : Addr) :
    (s.freeNode a).queues = s.queues := rfl

@[simp] theorem Shared.setQueue_heap (s : Shared Tid Q T) (q : Q) (Q' : Queue Tid) :
    (s.setQueue q Q').heap = s.heap := rfl

@[simp] theorem Shared.setQueue_queues (s : Shared Tid Q T) (q : Q) (Q' : Queue Tid) :
    (s.setQueue q Q').queues = Function.update s.queues q (some Q') := rfl

theorem Shared.setQueue_self (s : Shared Tid Q T) (q : Q) (Q' : Queue Tid) :
    (s.setQueue q Q').queues q = some Q' :=
  Function.update_self ..

end Updates

/-! ## The operations -/

/-- `ts_queue::pop_status`.
SRCLINE: threadsafe_queue.h:22-23 -/
inductive PopStatus where
  | empty
  | ready
  | tryLockFail
  | interrupted
  | timeout
  deriving DecidableEq

/-- The notification that follows a push. -/
inductive Notify where
  | none
  | one
  | all
  deriving DecidableEq

/-- Whether a pop waits for an element: not at all, without limit, or until a time. -/
inductive Wait where
  | never
  | forever
  | timed
  deriving DecidableEq

/-- How much a pop removes: one element into `ret`, or up to `count` elements. -/
inductive Amount where
  | one
  | many (count : ℤ)
  deriving DecidableEq

/-- A member of the family of pops. -/
structure Take where
  wait : Wait
  amount : Amount
  deriving DecidableEq

/-- An operation that takes both mutexes of each of its queues. -/
inductive Section (Q : Type) where
  | clear (q : Q)
  | empty (q : Q)
  | moveConstruct (this other : Q)
  | moveAssign (this other : Q)

/-- The queues whose mutexes are listed in the `std::scoped_lock`.
SRCLINE: threadsafe_queue.h:127, 136-137, 147, 382 -/
def Section.queues {Q : Type} : Section Q → List Q
  | .clear q => [q]
  | .empty q => [q]
  | .moveConstruct _ other => [other]
  | .moveAssign this other => [this, other]

/-- One of the two mutexes of a queue object. -/
inductive MutexName (Q : Type) where
  | head (q : Q)
  | tail (q : Q)
  deriving DecidableEq

/-- The arguments of the `std::scoped_lock`, as they are written.
SRCLINE: threadsafe_queue.h:127, 136-137, 147, 382 -/
def Section.mutexes {Q : Type} (c : Section Q) : List (MutexName Q) :=
  c.queues.flatMap fun q => [.head q, .tail q]

/-- The arguments `beg` and `end` of `push_range`: the elements that copies of `beg` pass on
their way to `end`, and the one that `beg` itself yields after that. -/
inductive Range (T : Type) where
  | nil
  | cons (first : T) (rest : List T) (again : T)

/-- The elements of the range. -/
def Range.elements {T : Type} : Range T → List T
  | .nil => []
  | .cons first rest _ => first :: rest

/-- The first element can be read after the range has been passed. -/
def Range.Multipass {T : Type} : Range T → Prop
  | .nil => True
  | .cons first _ again => again = first

/-- The calls a client can make. -/
inductive Op (Q T : Type) where
  | create (q : Q)
  | emplace (q : Q) (v : T) (n : Notify)
  | pushRange (q : Q) (r : Range T) (n : Notify)
  | take (q : Q) (k : Take)
  | locked (c : Section Q)
  | notify (q : Q) (n : Notify)
  | stopWaitings (q : Q)

section Members

variable {Q T : Type}

def Op.push (q : Q) (v : T) : Op Q T := .emplace q v .none
def Op.emplaceAndNotifyOne (q : Q) (v : T) : Op Q T := .emplace q v .one
def Op.emplaceAndNotifyAll (q : Q) (v : T) : Op Q T := .emplace q v .all
def Op.pushAndNotifyOne (q : Q) (v : T) : Op Q T := .emplace q v .one
def Op.pushAndNotifyAll (q : Q) (v : T) : Op Q T := .emplace q v .all
def Op.pushRangeAndNotifyOne (q : Q) (r : Range T) : Op Q T := .pushRange q r .one
def Op.pushRangeAndNotifyAll (q : Q) (r : Range T) : Op Q T := .pushRange q r .all
def Op.pop (q : Q) : Op Q T := .take q ⟨.never, .one⟩
def Op.popN (q : Q) (count : ℤ) : Op Q T := .take q ⟨.never, .many count⟩
def Op.waitAndPop (q : Q) : Op Q T := .take q ⟨.forever, .one⟩
def Op.waitAndPopN (q : Q) (count : ℤ) : Op Q T := .take q ⟨.forever, .many count⟩
def Op.waitForAndPop (q : Q) : Op Q T := .take q ⟨.timed, .one⟩
def Op.waitForAndPopN (q : Q) (count : ℤ) : Op Q T := .take q ⟨.timed, .many count⟩
def Op.waitUntilAndPop (q : Q) : Op Q T := .take q ⟨.timed, .one⟩
def Op.waitUntilAndPopN (q : Q) (count : ℤ) : Op Q T := .take q ⟨.timed, .many count⟩
def Op.clear (q : Q) : Op Q T := .locked (.clear q)
def Op.empty (q : Q) : Op Q T := .locked (.empty q)

end Members

/-- What a call returns: nothing, a truth value, a status with the value assigned to
`ret`, or the elements written through the output iterator with the status that the
timed variants return beside it. -/
inductive Res (T : Type) where
  | unit
  | bool (b : Bool)
  | status (st : PopStatus) (ret : Option T)
  | range (out : List T) (st : Option PopStatus)

/-- The result of a pop that took the elements `out`. -/
def Take.result {T : Type} (k : Take) (st : PopStatus) (out : List T) : Res T :=
  match k.amount with
  | .one => .status st out.head?
  | .many _ => .range out (if k.wait = .timed then some st else none)

/-! ## Control points -/

/-- The nodes a push is going to append: the new tail of `emplace`, or the subqueue of
`push_range`. -/
inductive Sub where
  | node (pnewTail : Addr)
  | range (headSub tailSub : Addr)

/-- The node that `m_tail->m_next` will own. -/
def Sub.first : Sub → Addr
  | .node a => a
  | .range a _ => a

/-- The node that will be the new tail. -/
def Sub.last : Sub → Addr
  | .node a => a
  | .range _ b => b

/-- The control points of one thread. -/
inductive Pc (Q T : Type) where
  | idle
  | returning (r : Res T)
  /-- in `ts_queue()` -/
  | create (q : Q)
  /-- in `emplace`, before `make_unique<node>()` -/
  | makeNode (q : Q) (v : T) (n : Notify)
  /-- in `push_range`, before the test `beg==end` -/
  | makeSub (q : Q) (r : Range T) (n : Notify)
  /-- in the loop of `push_range`: `v` is what `*beg` will yield, `rest` is still to be
  copied -/
  | copyRange (q : Q) (v : T) (rest : List T) (headSub tailSub : Addr) (n : Notify)
  | lockTail (q : Q) (v : T) (sub : Sub) (n : Notify)
  | constructData (q : Q) (v : T) (sub : Sub) (n : Notify)
  | setInitialized (q : Q) (sub : Sub) (n : Notify)
  | linkNext (q : Q) (sub : Sub) (n : Notify)
  | moveTail (q : Q) (sub : Sub) (n : Notify)
  | unlockTail (q : Q) (n : Notify)
  | notify (q : Q) (n : Notify)
  /-- before locking `m_head_mut` in a pop -/
  | lockHead (q : Q) (k : Take)
  /-- a waiting pop at its first test of `m_interrupt_waiting` -/
  | testInterrupt (q : Q) (k : Take)
  /-- in `get_tail_protected`; `last` marks the test of the predicate after a timeout -/
  | lockTailMut (q : Q) (k : Take) (last : Bool)
  | readTail (q : Q) (k : Take) (last : Bool)
  | unlockTailMut (q : Q) (k : Take) (last : Bool) (possibleTail : Addr)
  | testEmpty (q : Q) (k : Take) (last : Bool) (possibleTail : Addr)
  /-- the predicate was false: about to park in `m_cb`, still holding `m_head_mut` -/
  | park (q : Q) (k : Take)
  | parked (q : Q) (k : Take)
  | relock (q : Q) (k : Take) (last : Bool)
  /-- in `pop_n_unprotected`, at the loop test -/
  | popLoop (q : Q) (k : Take) (possibleTail : Addr) (count : ℤ) (out : List T)
  /-- about to move the element out of the first node -/
  | popData (q : Q) (k : Take) (possibleTail : Addr) (count : ℤ) (out : List T)
  /-- about to unlink and delete the first node -/
  | popNode (q : Q) (k : Take) (possibleTail : Addr) (count : ℤ) (out : List T)
  | unlockHead (q : Q) (r : Res T)
  /-- inside the constructor of `std::scoped_lock` -/
  | acquire (c : Section Q)
  /-- in the loop of `clear_unprotected` on `q` -/
  | clearing (c : Section Q) (q : Q)
  | testQueue (c : Section Q) (q : Q)
  | moveQueue (c : Section Q)
  /-- inside the destructor of `std::scoped_lock` -/
  | release (c : Section Q) (r : Res T)
  | lockStop (q : Q)
  | setStop (q : Q)
  | unlockStop (q : Q)

section Transitions

variable {Tid Q T : Type}

/-- After a push: notify if the called variant does. -/
def afterPush (q : Q) (n : Notify) : Pc Q T :=
  match n with
  | .none => .returning .unit
  | n => .notify q n

/-- After `m_head_mut` was locked at the start of a pop. -/
def afterLockHead (q : Q) (k : Take) : Pc Q T :=
  match k.wait with
  | .never => .lockTailMut q k false
  | _ => .testInterrupt q k

/-- The start of the removal: `pop_unprotected_unchecked` for one element,
`pop_n_unprotected` for many.
SRCLINE: threadsafe_queue.h:87-114 -/
def popStart (q : Q) (k : Take) (possibleTail : Addr) : Pc Q T :=
  match k.amount with
  | .one => .popData q k possibleTail 1 []
  | .many count => .popLoop q k possibleTail count []

/-- What follows the comparison of `m_head` with the tail that was read.
SRCLINE: threadsafe_queue.h:95-98, 169-181, 190-198, 208-221 -/
def afterTest (q : Q) (k : Take) (last : Bool) (possibleTail : Addr) (Q' : Queue Tid) :
    Pc Q T :=
  match k.wait with
  | .never =>
    if k.amount = .one ∧ Q'.mHead = some possibleTail then
      .unlockHead q (k.result .empty [])
    else popStart q k possibleTail
  | _ =>
    if Q'.mHead ≠ some possibleTail ∨ Q'.mInterruptWaiting = true then
      if Q'.mInterruptWaiting = true then .unlockHead q (k.result .interrupted [])
      else popStart q k possibleTail
    else if last = true then .unlockHead q (k.result .timeout [])
    else .park q k

/-- The loop test of `pop_n_unprotected`.
SRCLINE: threadsafe_queue.h:107-113 -/
def afterLoopTest (q : Q) (k : Take) (possibleTail : Addr) (count : ℤ) (out : List T)
    (Q' : Queue Tid) : Pc Q T :=
  if count = 0 ∨ Q'.mHead = some possibleTail then .unlockHead q (k.result .ready out)
  else .popData q k possibleTail count out

/-- After a node was removed. -/
def afterPop (q : Q) (k : Take) (possibleTail : Addr) (count : ℤ) (out : List T) : Pc Q T :=
  match k.amount with
  | .one => .unlockHead q (k.result .ready out)
  | .many _ => .popLoop q k possibleTail (count - 1) out

/-- The first statement under the locks of a section. -/
def Section.body : Section Q → Pc Q T
  | .clear q => .clearing (.clear q) q
  | .empty q => .testQueue (.empty q) q
  | .moveConstruct this other => .moveQueue (.moveConstruct this other)
  | .moveAssign this other => .clearing (.moveAssign this other) this

/-- What follows the loop of `clear_unprotected`. -/
def Section.afterClear : Section Q → Pc Q T
  | .moveAssign this other => .moveQueue (.moveAssign this other)
  | c => .release c .unit

/-- The control point at which an operation starts. -/
def Op.entry : Op Q T → Pc Q T
  | .create q => .create q
  | .emplace q v n => .makeNode q v n
  | .pushRange q r n => .makeSub q r n
  | .take q k => .lockHead q k
  | .locked c => .acquire c
  | .notify q n => .notify q n
  | .stopWaitings q => .lockStop q

end Transitions

/-! ## Steps -/

/-- The label of a step: a call, a return, or nothing visible. -/
abbrev Lab (Q T : Type) : Type := Option (Event (Op Q T) (Res T))

section Steps

variable {Tid Q T : Type} [DecidableEq Tid] [DecidableEq Q]

/-- Calls, returns, the default constructor, notifications and `stop_waitings`.
SRCLINE: threadsafe_queue.h:117-120, 295-307 -/
inductive ClientStep (t : Tid) :
    Pc Q T → Shared Tid Q T → Lab Q T → Pc Q T → Shared Tid Q T → Prop
  | call (s : Shared Tid Q T) (op : Op Q T) :
      ClientStep t .idle s (some (.call op)) op.entry s
  | ret (s : Shared Tid Q T) (r : Res T) :
      ClientStep t (.returning r) s (some (.ret r)) .idle s
  | create {s : Shared Tid Q T} {q : Q} {a : Addr} : s.queues q = none → s.heap a = none →
      ClientStep t (.create q) s none (.returning .unit)
        ((s.setNode a .fresh).setQueue q ⟨none, none, [], false, some a, some a⟩)
  | notifyOne {s : Shared Tid Q T} {q : Q} {Q' : Queue Tid} {u : Tid} :
      s.queues q = some Q' → u ∈ Q'.mCb →
      ClientStep t (.notify q .one) s none (.returning .unit)
        (s.setQueue q { Q' with mCb := Q'.mCb.erase u })
  | notifyNobody {s : Shared Tid Q T} {q : Q} {Q' : Queue Tid} :
      s.queues q = some Q' → Q'.mCb = [] →
      ClientStep t (.notify q .one) s none (.returning .unit) s
  | notifyAll {s : Shared Tid Q T} {q : Q} {Q' : Queue Tid} : s.queues q = some Q' →
      ClientStep t (.notify q .all) s none (.returning .unit)
        (s.setQueue q { Q' with mCb := [] })
  | lockStop {s : Shared Tid Q T} {q : Q} {Q' : Queue Tid} :
      s.queues q = some Q' → Q'.mHeadMut = none →
      ClientStep t (.lockStop q) s none (.setStop q)
        (s.setQueue q { Q' with mHeadMut := some t })
  | setStop {s : Shared Tid Q T} {q : Q} {Q' : Queue Tid} : s.queues q = some Q' →
      ClientStep t (.setStop q) s none (.unlockStop q)
        (s.setQueue q { Q' with mInterruptWaiting := true })
  | unlockStop {s : Shared Tid Q T} {q : Q} {Q' : Queue Tid} : s.queues q = some Q' →
      ClientStep t (.unlockStop q) s none (.notify q .all)
        (s.setQueue q { Q' with mHeadMut := none })

/-- `emplace` and `push_range`.
SRCLINE: threadsafe_queue.h:308-315, 349-370 -/
inductive PushStep (t : Tid) : Pc Q T → Shared Tid Q T → Pc Q T → Shared Tid Q T → Prop
  | makeNode {s : Shared Tid Q T} {q : Q} {v : T} {n : Notify} {a : Addr} : s.heap a = none →
      PushStep t (.makeNode q v n) s (.lockTail q v (.node a) n) (s.setNode a .fresh)
  | makeSubNil (s : Shared Tid Q T) (q : Q) (n : Notify) :
      PushStep t (.makeSub q .nil n) s (afterPush q n) s
  /-- `*beg` is read after the loop -/
  | makeSub {s : Shared Tid Q T} {q : Q} {first v : T} {rest : List T} {n : Notify} {a : Addr} :
      s.heap a = none →
      PushStep t (.makeSub q (.cons first rest v) n) s (.copyRange q v rest a a n)
        (s.setNode a .fresh)
  | copyRange {s : Shared Tid Q T} {q : Q} {v x : T} {rest : List T} {headSub tailSub a : Addr}
      {n : Notify} {nd : Node T} : s.heap tailSub = some nd → s.heap a = none →
      PushStep t (.copyRange q v (x :: rest) headSub tailSub n) s
        (.copyRange q v rest headSub a n)
        ((s.setNode tailSub ⟨some x, some a, true⟩).setNode a .fresh)
  | copyRangeNil (s : Shared Tid Q T) (q : Q) (v : T) (headSub tailSub : Addr) (n : Notify) :
      PushStep t (.copyRange q v [] headSub tailSub n) s
        (.lockTail q v (.range headSub tailSub) n) s
  | lockTail {s : Shared Tid Q T} {q : Q} {v : T} {sub : Sub} {n : Notify} {Q' : Queue Tid} :
      s.queues q = some Q' → Q'.mTailMut = none →
      PushStep t (.lockTail q v sub n) s (.constructData q v sub n)
        (s.setQueue q { Q' with mTailMut := some t })
  | constructData {s : Shared Tid Q T} {q : Q} {v : T} {sub : Sub} {n : Notify} {Q' : Queue Tid}
      {tl : Addr} {nd : Node T} :
      s.queues q = some Q' → Q'.mTail = some tl → s.heap tl = some nd →
      PushStep t (.constructData q v sub n) s (.setInitialized q sub n)
        (s.setNode tl { nd with data := some v })
  | setInitialized {s : Shared Tid Q T} {q : Q} {sub : Sub} {n : Notify} {Q' : Queue Tid}
      {tl : Addr} {nd : Node T} :
      s.queues q = some Q' → Q'.mTail = some tl → s.heap tl = some nd →
      PushStep t (.setInitialized q sub n) s (.linkNext q sub n)
        (s.setNode tl { nd with initialized := true })
  | linkNext {s : Shared Tid Q T} {q : Q} {sub : Sub} {n : Notify} {Q' : Queue Tid}
      {tl : Addr} {nd : Node T} :
      s.queues q = some Q' → Q'.mTail = some tl → s.heap tl = some nd →
      PushStep t (.linkNext q sub n) s (.moveTail q sub n)
        (s.setNode tl { nd with mNext := some sub.first })
  /-- `m_tail=m_tail->m_next.get()` in `emplace` -/
  | moveTail {s : Shared Tid Q T} {q : Q} {a : Addr} {n : Notify} {Q' : Queue Tid}
      {tl : Addr} {nd : Node T} :
      s.queues q = some Q' → Q'.mTail = some tl → s.heap tl = some nd →
      PushStep t (.moveTail q (.node a) n) s (.unlockTail q n)
        (s.setQueue q { Q' with mTail := nd.mNext })
  /-- `m_tail=tail_sub` in `push_range` -/
  | moveTailRange {s : Shared Tid Q T} {q : Q} {headSub tailSub : Addr} {n : Notify}
      {Q' : Queue Tid} : s.queues q = some Q' →
      PushStep t (.moveTail q (.range headSub tailSub) n) s (.unlockTail q n)
        (s.setQueue q { Q' with mTail := some tailSub })
  | unlockTail {s : Shared Tid Q T} {q : Q} {n : Notify} {Q' : Queue Tid} :
      s.queues q = some Q' →
      PushStep t (.unlockTail q n) s (afterPush q n)
        (s.setQueue q { Q' with mTailMut := none })

/-- The pops, waiting or not.
SRCLINE: threadsafe_queue.h:82-114, 151-293 -/
inductive PopStep (t : Tid) : Pc Q T → Shared Tid Q T → Pc Q T → Shared Tid Q T → Prop
  | lockHead {s : Shared Tid Q T} {q : Q} {k : Take} {Q' : Queue Tid} :
      s.queues q = some Q' → Q'.mHeadMut = none →
      PopStep t (.lockHead q k) s (afterLockHead q k)
        (s.setQueue q { Q' with mHeadMut := some t })
  | testInterrupt {s : Shared Tid Q T} {q : Q} {k : Take} {Q' : Queue Tid} :
      s.queues q = some Q' →
      PopStep t (.testInterrupt q k) s
        (if Q'.mInterruptWaiting = true then .unlockHead q (k.result .interrupted [])
          else .lockTailMut q k false) s
  | lockTailMut {s : Shared Tid Q T} {q : Q} {k : Take} {last : Bool} {Q' : Queue Tid} :
      s.queues q = some Q' → Q'.mTailMut = none →
      PopStep t (.lockTailMut q k last) s (.readTail q k last)
        (s.setQueue q { Q' with mTailMut := some t })
  | readTail {s : Shared Tid Q T} {q : Q} {k : Take} {last : Bool} {Q' : Queue Tid}
      {possibleTail : Addr} : s.queues q = some Q' → Q'.mTail = some possibleTail →
      PopStep t (.readTail q k last) s (.unlockTailMut q k last possibleTail) s
  | unlockTailMut {s : Shared Tid Q T} {q : Q} {k : Take} {last : Bool} {Q' : Queue Tid}
      {possibleTail : Addr} : s.queues q = some Q' →
      PopStep t (.unlockTailMut q k last possibleTail) s (.testEmpty q k last possibleTail)
        (s.setQueue q { Q' with mTailMut := none })
  | testEmpty {s : Shared Tid Q T} {q : Q} {k : Take} {last : Bool} {Q' : Queue Tid}
      {possibleTail : Addr} : s.queues q = some Q' →
      PopStep t (.testEmpty q k last possibleTail) s (afterTest q k last possibleTail Q') s
  /-- `m_cb.wait` releases `m_head_mut` and parks the thread in one step -/
  | park {s : Shared Tid Q T} {q : Q} {k : Take} {Q' : Queue Tid} : s.queues q = some Q' →
      PopStep t (.park q k) s (.parked q k)
        (s.setQueue q { Q' with mHeadMut := none, mCb := t :: Q'.mCb })
  | notified {s : Shared Tid Q T} {q : Q} {k : Take} {Q' : Queue Tid} :
      s.queues q = some Q' → t ∉ Q'.mCb →
      PopStep t (.parked q k) s (.relock q k false) s
  | spurious {s : Shared Tid Q T} {q : Q} {k : Take} {Q' : Queue Tid} :
      s.queues q = some Q' → t ∈ Q'.mCb →
      PopStep t (.parked q k) s (.relock q k false)
        (s.setQueue q { Q' with mCb := Q'.mCb.erase t })
  | timeout {s : Shared Tid Q T} {q : Q} {k : Take} {Q' : Queue Tid} :
      s.queues q = some Q' → k.wait = .timed →
      PopStep t (.parked q k) s (.relock q k true)
        (s.setQueue q { Q' with mCb := Q'.mCb.erase t })
  | relock {s : Shared Tid Q T} {q : Q} {k : Take} {last : Bool} {Q' : Queue Tid} :
      s.queues q = some Q' → Q'.mHeadMut = none →
      PopStep t (.relock q k last) s (.lockTailMut q k last)
        (s.setQueue q { Q' with mHeadMut := some t })
  | popLoop {s : Shared Tid Q T} {q : Q} {k : Take} {possibleTail : Addr} {count : ℤ}
      {out : List T} {Q' : Queue Tid} : s.queues q = some Q' →
      PopStep t (.popLoop q k possibleTail count out) s
        (afterLoopTest q k possibleTail count out Q') s
  | popData {s : Shared Tid Q T} {q : Q} {k : Take} {possibleTail : Addr} {count : ℤ}
      {out : List T} {Q' : Queue Tid} {h : Addr} {nd : Node T} {v : T} :
      s.queues q = some Q' → Q'.mHead = some h → s.heap h = some nd → nd.data = some v →
      PopStep t (.popData q k possibleTail count out) s
        (.popNode q k possibleTail count (out ++ [v])) s
  | popNode {s : Shared Tid Q T} {q : Q} {k : Take} {possibleTail : Addr} {count : ℤ}
      {out : List T} {Q' : Queue Tid} {h : Addr} {nd : Node T} :
      s.queues q = some Q' → Q'.mHead = some h → s.heap h = some nd →
      PopStep t (.popNode q k possibleTail count out) s (afterPop q k possibleTail count out)
        ((s.freeNode h).setQueue q { Q' with mHead := nd.mNext })
  | unlockHead {s : Shared Tid Q T} {q : Q} {r : Res T} {Q' : Queue Tid} :
      s.queues q = some Q' →
      PopStep t (.unlockHead q r) s (.returning r)
        (s.setQueue q { Q' with mHeadMut := none })

/-- Thread `t` owns both mutexes of every queue of the section. A mutex listed twice is
never acquired twice. -/
def OwnsAll (t : Tid) (c : Section Q) (s : Shared Tid Q T) : Prop :=
  c.queues.Nodup ∧ ∀ q ∈ c.queues, ∃ Q', s.queues q = some Q' ∧
    Q'.mHeadMut = some t ∧ Q'.mTailMut = some t

/-- Thread `t` owns no mutex of the section. -/
def OwnsNone (t : Tid) (c : Section Q) (s : Shared Tid Q T) : Prop :=
  ∀ q ∈ c.queues, ∀ Q', s.queues q = some Q' → Q'.mHeadMut ≠ some t ∧ Q'.mTailMut ≠ some t

/-- `clear`, `empty` and the move operations.
SRCLINE: threadsafe_queue.h:77-81, 123-149, 381-384 -/
inductive LockedStep (t : Tid) : Pc Q T → Shared Tid Q T → Pc Q T → Shared Tid Q T → Prop
  | acquireHead {s : Shared Tid Q T} {c : Section Q} {q : Q} {Q' : Queue Tid} :
      q ∈ c.queues → s.queues q = some Q' → Q'.mHeadMut = none →
      LockedStep t (.acquire c) s (.acquire c) (s.setQueue q { Q' with mHeadMut := some t })
  | acquireTail {s : Shared Tid Q T} {c : Section Q} {q : Q} {Q' : Queue Tid} :
      q ∈ c.queues → s.queues q = some Q' → Q'.mTailMut = none →
      LockedStep t (.acquire c) s (.acquire c) (s.setQueue q { Q' with mTailMut := some t })
  | backOffHead {s : Shared Tid Q T} {c : Section Q} {q : Q} {Q' : Queue Tid} :
      q ∈ c.queues → s.queues q = some Q' → Q'.mHeadMut = some t →
      LockedStep t (.acquire c) s (.acquire c) (s.setQueue q { Q' with mHeadMut := none })
  | backOffTail {s : Shared Tid Q T} {c : Section Q} {q : Q} {Q' : Queue Tid} :
      q ∈ c.queues → s.queues q = some Q' → Q'.mTailMut = some t →
      LockedStep t (.acquire c) s (.acquire c) (s.setQueue q { Q' with mTailMut := none })
  | enter {s : Shared Tid Q T} {c : Section Q} : OwnsAll t c s →
      LockedStep t (.acquire c) s c.body s
  | clearNode {s : Shared Tid Q T} {c : Section Q} {q : Q} {Q' : Queue Tid} {h : Addr}
      {nd : Node T} : s.queues q = some Q' → Q'.mHead ≠ Q'.mTail → Q'.mHead = some h →
      s.heap h = some nd →
      LockedStep t (.clearing c q) s (.clearing c q)
        ((s.freeNode h).setQueue q { Q' with mHead := nd.mNext })
  | cleared {s : Shared Tid Q T} {c : Section Q} {q : Q} {Q' : Queue Tid} :
      s.queues q = some Q' → Q'.mHead = Q'.mTail →
      LockedStep t (.clearing c q) s c.afterClear s
  | testQueue {s : Shared Tid Q T} {c : Section Q} {q : Q} {Q' : Queue Tid} :
      s.queues q = some Q' →
      LockedStep t (.testQueue c q) s (.release c (.bool (decide (Q'.mHead = Q'.mTail)))) s
  | moveConstruct {s : Shared Tid Q T} {this other : Q} {O : Queue Tid} {a : Addr} :
      s.queues this = none → s.queues other = some O → s.heap a = none →
      LockedStep t (.moveQueue (.moveConstruct this other)) s
        (.release (.moveConstruct this other) .unit)
        (((s.setNode a .fresh).setQueue other { O with mHead := some a, mTail := some a }).setQueue
          this ⟨none, none, [], false, O.mHead, O.mTail⟩)
  /-- `m_head=std::move(other.m_head)` deletes the old first node, so `new node` may get
  its address -/
  | moveAssign {s : Shared Tid Q T} {this other : Q} {D O : Queue Tid} {d a : Addr} :
      s.queues this = some D → s.queues other = some O → D.mHead = some d →
      (s.freeNode d).heap a = none →
      LockedStep t (.moveQueue (.moveAssign this other)) s
        (.release (.moveAssign this other) .unit)
        ((((s.freeNode d).setNode a .fresh).setQueue other
          { O with mHead := some a, mTail := some a }).setQueue
          this { D with mHead := O.mHead, mTail := O.mTail })
  | releaseHead {s : Shared Tid Q T} {c : Section Q} {r : Res T} {q : Q} {Q' : Queue Tid} :
      q ∈ c.queues → s.queues q = some Q' → Q'.mHeadMut = some t →
      LockedStep t (.release c r) s (.release c r) (s.setQueue q { Q' with mHeadMut := none })
  | releaseTail {s : Shared Tid Q T} {c : Section Q} {r : Res T} {q : Q} {Q' : Queue Tid} :
      q ∈ c.queues → s.queues q = some Q' → Q'.mTailMut = some t →
      LockedStep t (.release c r) s (.release c r) (s.setQueue q { Q' with mTailMut := none })
  | released {s : Shared Tid Q T} {c : Section Q} {r : Res T} : OwnsNone t c s →
      LockedStep t (.release c r) s (.returning r) s

/-- The steps of one thread. -/
inductive QueueStep (t : Tid) :
    Pc Q T → Shared Tid Q T → Lab Q T → Pc Q T → Shared Tid Q T → Prop
  | client {p p' : Pc Q T} {s s' : Shared Tid Q T} {l : Lab Q T} :
      ClientStep t p s l p' s' → QueueStep t p s l p' s'
  | push {p p' : Pc Q T} {s s' : Shared Tid Q T} :
      PushStep t p s p' s' → QueueStep t p s none p' s'
  | pop {p p' : Pc Q T} {s s' : Shared Tid Q T} :
      PopStep t p s p' s' → QueueStep t p s none p' s'
  | locked {p p' : Pc Q T} {s s' : Shared Tid Q T} :
      LockedStep t p s p' s' → QueueStep t p s none p' s'

end Steps

/-! ## Initial configurations -/

/-- No queue has been constructed and every thread is idle. -/
def noQueues (Tid Q T : Type) : Concurrency.Config Tid (Pc Q T) (Shared Tid Q T) :=
  ⟨fun _ => .idle, ⟨fun _ => none, fun _ => none⟩⟩

/-- One queue, just constructed, and every thread is idle. -/
def oneQueue (Tid T : Type) : Concurrency.Config Tid (Pc Unit T) (Shared Tid Unit T) :=
  ⟨fun _ => .idle,
    ⟨Function.update (fun _ => none) 0 (some .fresh),
      fun _ => some ⟨none, none, [], false, some 0, some 0⟩⟩⟩

end UbuntuProjects.TsQueue
