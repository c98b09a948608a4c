import Mathlib.Order.BoundedOrder.Basic
import UbuntuProjects.Concurrency.Linearizable

/-!
# `hierarchy_mutex`: mutexes that are locked in descending order

The model of `hierarchy_mutex` (hierarchy_mutex.h) for any number of threads and any number
of mutexes of one `size_type`, a linear order with a greatest value. The hierarchy of a
mutex is constant. `this_thread_h_` is one value for each thread, shared by all mutexes of
the template instance.

A call of `lock` or `try_lock` reads the thread's value, takes `mut_` and writes
`prev_h_` and the thread's value, in steps between which other threads may act; so does
`unlock`. `mut_.try_lock` may fail although `mut_` is free, as the standard allows. The
label of a step tells when `mut_` is taken and released.
-/

set_option autoImplicit false

namespace UbuntuProjects.HierarchyMutex

open Concurrency (Config Event)

/-! ## The state -/

/-- The members of all mutexes except `hierarchy_`, and the value of each thread.
SRCLINE: hierarchy_mutex.h:7-10 -/
structure Shared (Tid M α : Type) where
  mut_ : M → Option Tid
  prevH : M → α
  thisThreadH : Tid → α

/-- The calls of a client. -/
inductive Op (M : Type) where
  | lock (m : M)
  | tryLock (m : M)
  | unlock (m : M)

/-- The result of a call. -/
inductive Result where
  | void
  | bool (b : Bool)
  | hierarchyViolation (str : String)
  deriving DecidableEq

/-- The call ends with an exception. -/
def Result.throws : Result → Prop
  | .hierarchyViolation _ => True
  | _ => False

/-- The two calls that take `mut_`. -/
inductive Acquire where
  | lock
  | tryLock

/-- What a call that has taken `mut_` returns.
SRCLINE: hierarchy_mutex.h:31-35, 42-47 -/
def Acquire.result : Acquire → Result
  | .lock => .void
  | .tryLock => .bool true

/-- The control points of one thread. -/
inductive Pc (M : Type) where
  | idle
  | returning (r : Result)
  /-- in `lock` or `try_lock`, before `check` -/
  | check (a : Acquire) (m : M)
  /-- before `mut_.lock` or `mut_.try_lock` -/
  | take (a : Acquire) (m : M)
  /-- in `update_hierarchy`, before the write of `prev_h_` -/
  | storePrev (a : Acquire) (m : M)
  /-- in `update_hierarchy`, before the write of `this_thread_h_` -/
  | storeThis (a : Acquire) (m : M)
  /-- in `unlock`, before the comparison -/
  | unlockCheck (m : M)
  /-- in `unlock`, before the write of `this_thread_h_` -/
  | restoreThis (m : M)
  /-- before `mut_.unlock` -/
  | release (m : M)

/-- The control point at which a call starts. -/
def Op.entry {M : Type} : Op M → Pc M
  | .lock m => .check .lock m
  | .tryLock m => .check .tryLock m
  | .unlock m => .unlockCheck m

/-- What an observer sees of a step. -/
inductive Lab (M : Type) where
  | event (e : Event (Op M) Result)
  | acquired (m : M)
  | released (m : M)
  | silent

/-! ## Steps -/

section Steps

variable {Tid M α : Type} [DecidableEq Tid] [DecidableEq M] [LinearOrder α]

/-- Taking or releasing `mut_`. -/
def Shared.setMut (s : Shared Tid M α) (m : M) (o : Option Tid) : Shared Tid M α :=
  { s with mut_ := Function.update s.mut_ m o }

/-- Writing `prev_h_`. -/
def Shared.setPrev (s : Shared Tid M α) (m : M) (h : α) : Shared Tid M α :=
  { s with prevH := Function.update s.prevH m h }

/-- Writing `this_thread_h_`. -/
def Shared.setThis (s : Shared Tid M α) (t : Tid) (h : α) : Shared Tid M α :=
  { s with thisThreadH := Function.update s.thisThreadH t h }

/-- The steps of one thread.
SRCLINE: hierarchy_mutex.h:11-51 -/
inductive MutexStep (hierarchy : M → α) (t : Tid) :
    Pc M → Shared Tid M α → Lab M → Pc M → Shared Tid M α → Prop
  | call (s : Shared Tid M α) (op : Op M) :
      MutexStep hierarchy t .idle s (.event (.call op)) op.entry s
  | ret (s : Shared Tid M α) (r : Result) :
      MutexStep hierarchy t (.returning r) s (.event (.ret r)) .idle s
  | checkThrow {s : Shared Tid M α} {a : Acquire} {m : M} :
      s.thisThreadH t ≤ hierarchy m →
      MutexStep hierarchy t (.check a m) s .silent
        (.returning (.hierarchyViolation "mutex hierarchy violation")) s
  | checkPass {s : Shared Tid M α} {a : Acquire} {m : M} :
      ¬s.thisThreadH t ≤ hierarchy m →
      MutexStep hierarchy t (.check a m) s .silent (.take a m) s
  | take {s : Shared Tid M α} {a : Acquire} {m : M} : s.mut_ m = none →
      MutexStep hierarchy t (.take a m) s (.acquired m) (.storePrev a m)
        (s.setMut m (some t))
  | tryFail (s : Shared Tid M α) (m : M) :
      MutexStep hierarchy t (.take .tryLock m) s .silent (.returning (.bool false)) s
  | storePrev (s : Shared Tid M α) (a : Acquire) (m : M) :
      MutexStep hierarchy t (.storePrev a m) s .silent (.storeThis a m)
        (s.setPrev m (s.thisThreadH t))
  | storeThis (s : Shared Tid M α) (a : Acquire) (m : M) :
      MutexStep hierarchy t (.storeThis a m) s .silent (.returning a.result)
        (s.setThis t (hierarchy m))
  | unlockThrow {s : Shared Tid M α} {m : M} : s.thisThreadH t ≠ hierarchy m →
      MutexStep hierarchy t (.unlockCheck m) s .silent
        (.returning (.hierarchyViolation "mutex hierarchy violated on unlock")) s
  | unlockPass {s : Shared Tid M α} {m : M} : s.thisThreadH t = hierarchy m →
      MutexStep hierarchy t (.unlockCheck m) s .silent (.restoreThis m) s
  | restoreThis (s : Shared Tid M α) (m : M) :
      MutexStep hierarchy t (.restoreThis m) s .silent (.release m)
        (s.setThis t (s.prevH m))
  | release (s : Shared Tid M α) (m : M) :
      MutexStep hierarchy t (.release m) s (.released m) (.returning .void)
        (s.setMut m none)

end Steps

/-- Threads that have locked nothing, and mutexes just constructed.
SRCLINE: hierarchy_mutex.h:25-26, 52-53 -/
def start (Tid M α : Type) [LE α] [OrderTop α] [Zero α] : Config Tid (Pc M) (Shared Tid M α) :=
  ⟨fun _ => .idle, ⟨fun _ => none, fun _ => 0, fun _ => ⊤⟩⟩

/-- A thread only calls `unlock` of a mutex that it owns. -/
def UnlocksOwned {Tid M α : Type} (c : Config Tid (Pc M) (Shared Tid M α)) (e : Tid × Lab M) :
    Prop :=
  ∀ m, e.2 = .event (.call (.unlock m)) → c.sh.mut_ m = some e.1

/-- One step of the record of the mutexes that thread `t` holds, the one acquired last in
front. -/
def holdStep {Tid M : Type} [DecidableEq Tid] [DecidableEq M] (t : Tid) (L : List M)
    (e : Tid × Lab M) : List M :=
  if e.1 = t then
    match e.2 with
    | .acquired m => m :: L
    | .released m => L.erase m
    | _ => L
  else L

/-- The mutexes that thread `t` has acquired and not released, the one acquired last in
front. -/
def held {Tid M : Type} [DecidableEq Tid] [DecidableEq M] (tr : List (Tid × Lab M)) (t : Tid) :
    List M :=
  tr.foldl (holdStep t) []

end UbuntuProjects.HierarchyMutex
