import UbuntuProjects.Concurrency.Program
import UbuntuProjects.Concurrency.Linearizable

/-!
# `tfg_flist`: a forward list with one mutex in each node

The model of `ts_adv::tfg_flist` (ts_fine_graited_flist.h). The nodes are numbered in the
order of their construction; node 0 is the one that `m_before_begin` owns. A number
stands for the node object and is not used again, whatever memory the object lies in.

The loops over the list lock the mutex of the next node before they give up a mutex they
hold. `for_each` and `for_first_of` release the previous node before they call back, so
they hold one mutex during a callback (`scan`); `remove_if` and `remove_first_if` hold
two, and unlink the node when the predicate returns true (`remove`). A callback reads and
writes the element it is given and data of its own thread, and may end by an exception.

The steps of a thread are the statements between which another thread can see a
difference: each acquisition and release of a mutex, each read and write of a link, each
callback.
-/

set_option autoImplicit false

namespace UbuntuProjects.TfgFlist

open Concurrency (Config)

/-! ## The state -/

/-- The number of a node. -/
abbrev Addr : Type := ℕ

/-- The node that `m_before_begin` owns.
SRCLINE: ts_fine_graited_flist.h:32, 52 -/
def beforeBegin : Addr := 0

/-- `tfg_flist::node_type`. The mutex is the thread that owns it; `m_pdata` is the element
its pointer points to.
SRCLINE: ts_fine_graited_flist.h:17-30 -/
structure Node (Tid T : Type) where
  mMut : Option Tid
  mPdata : Option T
  mNext : Option Addr

/-- The nodes, where one that is dead or not yet constructed is `none`, and how many have
been constructed. -/
structure Shared (Tid T : Type) where
  heap : Addr → Option (Node Tid T)
  made : ℕ

section Updates

variable {Tid T : Type}

/-- Writing a node. -/
def Shared.setNode (s : Shared Tid T) (a : Addr) (nd : Node Tid T) : Shared Tid T :=
  { s with heap := Function.update s.heap a (some nd) }

/-- Constructing the next node. -/
def Shared.newNode (s : Shared Tid T) (nd : Node Tid T) : Shared Tid T :=
  ⟨Function.update s.heap s.made (some nd), s.made + 1⟩

/-- Destroying a node. -/
def Shared.freeNode (s : Shared Tid T) (a : Addr) : Shared Tid T :=
  { s with heap := Function.update s.heap a none }

@[simp] theorem Shared.setNode_heap (s : Shared Tid T) (a : Addr) (nd : Node Tid T) :
    (s.setNode a nd).heap = Function.update s.heap a (some nd) := rfl

@[simp] theorem Shared.setNode_made (s : Shared Tid T) (a : Addr) (nd : Node Tid T) :
    (s.setNode a nd).made = s.made := rfl

@[simp] theorem Shared.newNode_heap (s : Shared Tid T) (nd : Node Tid T) :
    (s.newNode nd).heap = Function.update s.heap s.made (some nd) := rfl

@[simp] theorem Shared.newNode_made (s : Shared Tid T) (nd : Node Tid T) :
    (s.newNode nd).made = s.made + 1 := rfl

@[simp] theorem Shared.freeNode_heap (s : Shared Tid T) (a : Addr) :
    (s.freeNode a).heap = Function.update s.heap a none := rfl

@[simp] theorem Shared.freeNode_made (s : Shared Tid T) (a : Addr) :
    (s.freeNode a).made = s.made := rfl

end Updates

/-! ## The operations -/

/-- A callback: from the data of its thread and the element to both afterwards and what it
returns, or an exception. -/
abbrev Callback (L T α : Type) : Type := L → T → L × T × Option α

/-- What a call returns by itself. -/
inductive Ret where
  | void
  | bool (b : Bool)
  | thrown
  deriving DecidableEq

/-- The result of a call; a loop also leaves the data of its thread behind, and the
elements that it passed to its callback in this order. -/
inductive Res (L T : Type) where
  | of (r : Ret)
  | loop (r : Ret) (loc : L) (visited : List T)

/-- The calls a client can make. -/
inductive Op (L T : Type) where
  | pushFront (v : T)
  | empty
  | scan (body : Callback L T Bool) (l : L)
  | remove (p : Callback L T Bool) (once : Bool) (l : L)

section Members

variable {L T : Type}

/-- SRCLINE: ts_fine_graited_flist.h:82-105 -/
def Op.forEach (op : Callback L T Unit) (l : L) : Op L T :=
  .scan (fun l v => ((op l v).1, (op l v).2.1, (op l v).2.2.map fun _ => false)) l

/-- SRCLINE: ts_fine_graited_flist.h:107-129 -/
def Op.forFirstOf (op : Callback L T Unit) (p : Callback L T Bool) (l : L) : Op L T :=
  .scan (fun l v =>
    match p l v with
    | (l', v', some true) => ((op l' v').1, (op l' v').2.1, (op l' v').2.2.map fun _ => true)
    | r => r) l

/-- SRCLINE: ts_fine_graited_flist.h:137-163 -/
def Op.removeIf (p : Callback L T Bool) (l : L) : Op L T := .remove p false l

/-- SRCLINE: ts_fine_graited_flist.h:164-192 -/
def Op.removeFirstIf (p : Callback L T Bool) (l : L) : Op L T := .remove p true l

/-- SRCLINE: ts_fine_graited_flist.h:193-195 -/
def Op.clear (l : L) : Op L T := .removeIf (fun l v => (l, v, some true)) l

end Members

/-! ## Loops -/

/-- A loop between two callbacks: its callback, the data of its thread, and the elements
visited so far. -/
structure Loop (L T : Type) where
  body : Callback L T Bool
  loc : L
  visited : List T

section Loops

variable {L T : Type}

/-- The loop after its callback was given the element `v`. -/
def Loop.next (k : Loop L T) (v : T) : Loop L T :=
  ⟨k.body, (k.body k.loc v).1, k.visited ++ [v]⟩

/-- The element as the callback leaves it. -/
def Loop.written (k : Loop L T) (v : T) : T := (k.body k.loc v).2.1

/-- What the callback returns. -/
def Loop.returned (k : Loop L T) (v : T) : Option Bool := (k.body k.loc v).2.2

/-- The result of the call if it returns now. -/
def Loop.result (k : Loop L T) (r : Ret) : Res L T := .loop r k.loc k.visited

/-- What `remove_if` and `remove_first_if` return at the end of the list.
SRCLINE: ts_fine_graited_flist.h:163, 191 -/
def Loop.exhausted (k : Loop L T) (once : Bool) : Res L T :=
  k.result (if once then .bool false else .void)

end Loops

/-! ## Control points -/

/-- The control points of one thread. -/
inductive Pc (L T : Type) where
  | idle
  | returning (r : Res L T)
  /-- in `push_front`, before `make_unique<node_type>(val)` -/
  | makeNode (v : T)
  /-- in `push_node_front`, before and after locking the mutex of `m_before_begin` -/
  | pushLock (v : T) (newBeg : Addr)
  | pushLink (v : T) (newBeg : Addr)
  | emptyLock
  | emptyTest
  /-- in `for_each` and `for_first_of`, before locking the mutex of `m_before_begin` -/
  | scanStart (body : Callback L T Bool) (l : L)
  /-- at the test of the loop -/
  | scanTest (k : Loop L T) (prev : Addr)
  | scanLock (k : Loop L T) (prev cur : Addr)
  | scanUnlockPrev (k : Loop L T) (prev cur : Addr)
  /-- about to call back, holding the mutex of `cur` only -/
  | scanVisit (k : Loop L T) (cur : Addr)
  | removeStart (p : Callback L T Bool) (once : Bool) (l : L)
  | removeTest (k : Loop L T) (once : Bool) (prev : Addr)
  | removeLock (k : Loop L T) (once : Bool) (prev cur : Addr)
  /-- about to call back, holding both mutexes -/
  | removeVisit (k : Loop L T) (once : Bool) (prev cur : Addr)
  /-- the predicate returned false -/
  | removeUnlockPrev (k : Loop L T) (once : Bool) (prev cur : Addr)
  /-- the predicate returned true -/
  | unlink (k : Loop L T) (once : Bool) (prev cur : Addr)
  | unlockCur (k : Loop L T) (once : Bool) (prev cur : Addr)
  | destroy (k : Loop L T) (once : Bool) (prev cur : Addr)
  /-- the predicate threw: `cur_lock` is destroyed before `prev_lock` -/
  | unwind (prev cur : Addr) (r : Res L T)
  /-- about to release the last mutex -/
  | unlock (a : Addr) (r : Res L T)

section Transitions

variable {L T : Type}

/-- The control point at which an operation starts. -/
def Op.entry : Op L T → Pc L T
  | .pushFront v => .makeNode v
  | .empty => .emptyLock
  | .scan body l => .scanStart body l
  | .remove p once l => .removeStart p once l

/-- What follows the loop test of `for_each` and `for_first_of`. -/
def afterScanTest (k : Loop L T) (prev : Addr) (next : Option Addr) : Pc L T :=
  match next with
  | none => .unlock prev (k.result .void)
  | some cur => .scanLock k prev cur

/-- What follows the callback of `for_each` and `for_first_of`. -/
def afterScanVisit (k : Loop L T) (cur : Addr) (v : T) : Pc L T :=
  match k.returned v with
  | none => .unlock cur ((k.next v).result .thrown)
  | some true => .unlock cur ((k.next v).result .void)
  | some false => .scanTest (k.next v) cur

/-- What follows the loop test of `remove_if` and `remove_first_if`. -/
def afterRemoveTest (k : Loop L T) (once : Bool) (prev : Addr) (next : Option Addr) :
    Pc L T :=
  match next with
  | none => .unlock prev (k.exhausted once)
  | some cur => .removeLock k once prev cur

/-- What follows the predicate of `remove_if` and `remove_first_if`. -/
def afterRemoveVisit (k : Loop L T) (once : Bool) (prev cur : Addr) (v : T) : Pc L T :=
  match k.returned v with
  | none => .unwind prev cur ((k.next v).result .thrown)
  | some true => .unlink (k.next v) once prev cur
  | some false => .removeUnlockPrev (k.next v) once prev cur

/-- What follows the destruction of a node: `remove_first_if` returns true. -/
def afterDestroy (k : Loop L T) (once : Bool) (prev : Addr) : Pc L T :=
  if once then .unlock prev (k.result (.bool true)) else .removeTest k once prev

end Transitions

/-! ## Steps -/

/-- The label of a step: a call, the acquisition of the mutex of `m_before_begin`, the
linking, unlinking and destruction of a node, a return, or nothing visible. -/
inductive Lab (L T : Type) where
  | tau
  | call (op : Op L T)
  | acquire (op : Op L T)
  | push (a : Addr)
  | unlink (a : Addr)
  | destroy (a : Addr)
  | ret (r : Res L T)

section Steps

variable {Tid L T : Type} [DecidableEq Tid]

/-- Acquiring the mutex of a node.  -/
def Node.lock (nd : Node Tid T) (t : Tid) : Node Tid T := { nd with mMut := some t }

/-- Releasing the mutex of a node.  -/
def Node.unlock (nd : Node Tid T) : Node Tid T := { nd with mMut := none }

/-- Calls, returns, `push_front`, `empty` and the end of every call.
SRCLINE: ts_fine_graited_flist.h:44-48, 75-80, 130-136 -/
inductive ClientStep (t : Tid) :
    Pc L T → Shared Tid T → Lab L T → Pc L T → Shared Tid T → Prop
  | call (s : Shared Tid T) (op : Op L T) : ClientStep t .idle s (.call op) op.entry s
  | ret (s : Shared Tid T) (r : Res L T) : ClientStep t (.returning r) s (.ret r) .idle s
  | makeNode (s : Shared Tid T) (v : T) :
      ClientStep t (.makeNode v) s .tau (.pushLock v s.made) (s.newNode ⟨none, some v, none⟩)
  | pushLock {s : Shared Tid T} {v : T} {a : Addr} {b : Node Tid T} :
      s.heap beforeBegin = some b → b.mMut = none →
      ClientStep t (.pushLock v a) s (.acquire (.pushFront v)) (.pushLink v a)
        (s.setNode beforeBegin (b.lock t))
  | pushLink {s : Shared Tid T} {v : T} {a : Addr} {b nd : Node Tid T} :
      s.heap beforeBegin = some b → s.heap a = some nd →
      ClientStep t (.pushLink v a) s (.push a) (.unlock beforeBegin (.of .void))
        ((s.setNode a { nd with mNext := b.mNext }).setNode beforeBegin
          { b with mNext := some a })
  | emptyLock {s : Shared Tid T} {b : Node Tid T} :
      s.heap beforeBegin = some b → b.mMut = none →
      ClientStep t .emptyLock s (.acquire .empty) .emptyTest
        (s.setNode beforeBegin (b.lock t))
  | emptyTest {s : Shared Tid T} {b : Node Tid T} : s.heap beforeBegin = some b →
      ClientStep t .emptyTest s .tau (.unlock beforeBegin (.of (.bool b.mNext.isNone))) s
  | unlock {s : Shared Tid T} {a : Addr} {r : Res L T} {nd : Node Tid T} :
      s.heap a = some nd →
      ClientStep t (.unlock a r) s .tau (.returning r) (s.setNode a nd.unlock)

/-- `for_each` and `for_first_of`.
SRCLINE: ts_fine_graited_flist.h:82-129 -/
inductive ScanStep (t : Tid) :
    Pc L T → Shared Tid T → Lab L T → Pc L T → Shared Tid T → Prop
  | start {s : Shared Tid T} {body : Callback L T Bool} {l : L} {b : Node Tid T} :
      s.heap beforeBegin = some b → b.mMut = none →
      ScanStep t (.scanStart body l) s (.acquire (.scan body l))
        (.scanTest ⟨body, l, []⟩ beforeBegin) (s.setNode beforeBegin (b.lock t))
  | test {s : Shared Tid T} {k : Loop L T} {prev : Addr} {p : Node Tid T} :
      s.heap prev = some p →
      ScanStep t (.scanTest k prev) s .tau (afterScanTest k prev p.mNext) s
  | lock {s : Shared Tid T} {k : Loop L T} {prev cur : Addr} {nd : Node Tid T} :
      s.heap cur = some nd → nd.mMut = none →
      ScanStep t (.scanLock k prev cur) s .tau (.scanUnlockPrev k prev cur)
        (s.setNode cur (nd.lock t))
  | unlockPrev {s : Shared Tid T} {k : Loop L T} {prev cur : Addr} {p : Node Tid T} :
      s.heap prev = some p →
      ScanStep t (.scanUnlockPrev k prev cur) s .tau (.scanVisit k cur)
        (s.setNode prev p.unlock)
  | visit {s : Shared Tid T} {k : Loop L T} {cur : Addr} {nd : Node Tid T} {v : T} :
      s.heap cur = some nd → nd.mPdata = some v →
      ScanStep t (.scanVisit k cur) s .tau (afterScanVisit k cur v)
        (s.setNode cur { nd with mPdata := some (k.written v) })

/-- `remove_if` and `remove_first_if`.
SRCLINE: ts_fine_graited_flist.h:137-192 -/
inductive RemoveStep (t : Tid) :
    Pc L T → Shared Tid T → Lab L T → Pc L T → Shared Tid T → Prop
  | start {s : Shared Tid T} {p : Callback L T Bool} {once : Bool} {l : L} {b : Node Tid T} :
      s.heap beforeBegin = some b → b.mMut = none →
      RemoveStep t (.removeStart p once l) s (.acquire (.remove p once l))
        (.removeTest ⟨p, l, []⟩ once beforeBegin) (s.setNode beforeBegin (b.lock t))
  | test {s : Shared Tid T} {k : Loop L T} {once : Bool} {prev : Addr} {p : Node Tid T} :
      s.heap prev = some p →
      RemoveStep t (.removeTest k once prev) s .tau (afterRemoveTest k once prev p.mNext) s
  | lock {s : Shared Tid T} {k : Loop L T} {once : Bool} {prev cur : Addr}
      {nd : Node Tid T} : s.heap cur = some nd → nd.mMut = none →
      RemoveStep t (.removeLock k once prev cur) s .tau (.removeVisit k once prev cur)
        (s.setNode cur (nd.lock t))
  | visit {s : Shared Tid T} {k : Loop L T} {once : Bool} {prev cur : Addr}
      {nd : Node Tid T} {v : T} : s.heap cur = some nd → nd.mPdata = some v →
      RemoveStep t (.removeVisit k once prev cur) s .tau (afterRemoveVisit k once prev cur v)
        (s.setNode cur { nd with mPdata := some (k.written v) })
  | unlockPrev {s : Shared Tid T} {k : Loop L T} {once : Bool} {prev cur : Addr}
      {p : Node Tid T} : s.heap prev = some p →
      RemoveStep t (.removeUnlockPrev k once prev cur) s .tau (.removeTest k once cur)
        (s.setNode prev p.unlock)
  /-- `tmp` takes the node over, and its link goes to the previous node -/
  | unlink {s : Shared Tid T} {k : Loop L T} {once : Bool} {prev cur : Addr}
      {p nd : Node Tid T} : s.heap prev = some p → s.heap cur = some nd →
      RemoveStep t (.unlink k once prev cur) s (.unlink cur) (.unlockCur k once prev cur)
        ((s.setNode cur { nd with mNext := none }).setNode prev { p with mNext := nd.mNext })
  | unlockCur {s : Shared Tid T} {k : Loop L T} {once : Bool} {prev cur : Addr}
      {nd : Node Tid T} : s.heap cur = some nd →
      RemoveStep t (.unlockCur k once prev cur) s .tau (.destroy k once prev cur)
        (s.setNode cur nd.unlock)
  | destroy {s : Shared Tid T} {k : Loop L T} {once : Bool} {prev cur : Addr}
      {nd : Node Tid T} : s.heap cur = some nd →
      RemoveStep t (.destroy k once prev cur) s (.destroy cur) (afterDestroy k once prev)
        (s.freeNode cur)
  | unwind {s : Shared Tid T} {prev cur : Addr} {r : Res L T} {nd : Node Tid T} :
      s.heap cur = some nd →
      RemoveStep t (.unwind prev cur r) s .tau (.unlock prev r) (s.setNode cur nd.unlock)

/-- The steps of one thread. -/
inductive FlistStep (t : Tid) :
    Pc L T → Shared Tid T → Lab L T → Pc L T → Shared Tid T → Prop
  | client {p p' : Pc L T} {s s' : Shared Tid T} {l : Lab L T} :
      ClientStep t p s l p' s' → FlistStep t p s l p' s'
  | scan {p p' : Pc L T} {s s' : Shared Tid T} {l : Lab L T} :
      ScanStep t p s l p' s' → FlistStep t p s l p' s'
  | remove {p p' : Pc L T} {s s' : Shared Tid T} {l : Lab L T} :
      RemoveStep t p s l p' s' → FlistStep t p s l p' s'

end Steps

/-- A list just constructed by the default constructor, and every thread is idle.
SRCLINE: ts_fine_graited_flist.h:51-55 -/
def newList (Tid L T : Type) : Config Tid (Pc L T) (Shared Tid T) :=
  ⟨fun _ => .idle, ⟨Function.update (fun _ => none) beforeBegin (some ⟨none, none, none⟩), 1⟩⟩

end UbuntuProjects.TfgFlist
