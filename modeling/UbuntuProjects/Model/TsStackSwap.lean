import UbuntuProjects.Model.TsStack
import UbuntuProjects.Concurrency.LockAll

/-!
# Swapping two stacks

`ts_stack::swap` takes the mutexes of both operands with `std::scoped_lock` and exchanges
the elements. As in the model of `ts_queue`, `std::scoped_lock` acquires its mutexes in any
order and may give up the ones it holds; a mutex that is listed twice is never acquired twice.
-/

set_option autoImplicit false

namespace UbuntuProjects.TsStack

open Concurrency

/-- A call of the member or of the friend.
SRCLINE: threadsafe_stack.h:312-319 -/
inductive SwapCall (Obj : Type) where
  | member (this other : Obj)
  | friend (lhs rhs : Obj)

/-- The control points of a thread that swaps stacks. -/
inductive SwapPc (Obj : Type) where
  | idle
  /-- inside the constructor of `std::scoped_lock` -/
  | acquire (this other : Obj)
  | exchange (this other : Obj)
  /-- inside the destructor of `std::scoped_lock` -/
  | release (this other : Obj)
  | returning

variable {Obj Tid T : Type}

/-- The friend calls the member.
SRCLINE: threadsafe_stack.h:317-319 -/
def SwapCall.entry : SwapCall Obj → SwapPc Obj
  | .member this other => .acquire this other
  | .friend lhs rhs => .acquire lhs rhs

/-- The mutexes in the list of the `std::scoped_lock`, each by the stack it is in.
SRCLINE: threadsafe_stack.h:314 -/
def swapMutexes (this other : Obj) : List Obj := [this, other]

section Steps

variable [DecidableEq Obj]

/-- Writing the mutex of a stack. -/
def setMut (s : Obj → Shared Tid T) (q : Obj) (m : Option Tid) : Obj → Shared Tid T :=
  Function.update s q { s q with mMut := m }

/-- `swap(m_stack, other.m_stack)`
SRCLINE: threadsafe_stack.h:315 -/
def exchangeStacks (s : Obj → Shared Tid T) (this other : Obj) : Obj → Shared Tid T :=
  Function.update (Function.update s this { s this with mStack := (s other).mStack }) other
    { s other with mStack := (s this).mStack }

/-- The steps of a thread; the label marks a call. -/
inductive SwapStep (t : Tid) :
    SwapPc Obj → (Obj → Shared Tid T) → Option (SwapCall Obj) → SwapPc Obj →
      (Obj → Shared Tid T) → Prop
  | call (s : Obj → Shared Tid T) (call : SwapCall Obj) :
      SwapStep t .idle s (some call) call.entry s
  | acquire {s : Obj → Shared Tid T} {this other q : Obj} :
      q ∈ swapMutexes this other → (s q).mMut = none →
      SwapStep t (.acquire this other) s none (.acquire this other) (setMut s q (some t))
  | backOff {s : Obj → Shared Tid T} {this other q : Obj} :
      q ∈ swapMutexes this other → (s q).mMut = some t →
      SwapStep t (.acquire this other) s none (.acquire this other) (setMut s q none)
  | enter {s : Obj → Shared Tid T} {this other : Obj} :
      (swapMutexes this other).Nodup → (∀ q ∈ swapMutexes this other, (s q).mMut = some t) →
      SwapStep t (.acquire this other) s none (.exchange this other) s
  | exchange {s : Obj → Shared Tid T} {this other : Obj} :
      SwapStep t (.exchange this other) s none (.release this other)
        (exchangeStacks s this other)
  | release {s : Obj → Shared Tid T} {this other q : Obj} :
      q ∈ swapMutexes this other → (s q).mMut = some t →
      SwapStep t (.release this other) s none (.release this other) (setMut s q none)
  | released {s : Obj → Shared Tid T} {this other : Obj} :
      (∀ q ∈ swapMutexes this other, (s q).mMut ≠ some t) →
      SwapStep t (.release this other) s none .returning s
  | ret (s : Obj → Shared Tid T) : SwapStep t .returning s none .idle s

end Steps

end UbuntuProjects.TsStack
