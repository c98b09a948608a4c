import Mathlib.Logic.Function.Basic
import Mathlib.Data.Nat.Notation

/-!
# `thread_guard` and `jointhread`

Both classes hold one `std::thread` and join it in their destructor. Threads are numbered in
the order in which they are started; a `std::thread` is the number of the thread it
represents, `none` when it is not joinable.

The operations are those that go through the classes: constructions from a `std::thread`,
move assignments between wrappers of one class, joins of joinable wrappers and destructions.
-/

set_option autoImplicit false

namespace UbuntuProjects.ThreadWrappers

inductive Class where
  | threadGuard
  | jointhread
  deriving DecidableEq, Repr

/-- A wrapper object and the thread in its member `tr_` or `m_thread`. -/
structure Wrapper where
  cls : Class
  thread : Option ℕ

/-- The wrappers that exist, the number of threads started, the threads joined, in order,
and whether `std::terminate` was called. -/
structure State (W : Type) where
  wrappers : W → Option Wrapper
  started : ℕ
  joined : List ℕ
  terminated : Bool

/-- The calls a client can make. -/
inductive Op (W : Type) where
  /-- from a `std::thread` that was just started or, for `jointhread` only, from one that is
  not joinable -/
  | construct (w : W) (cls : Class) (joinable : Bool)
  | assign (this tg : W)
  | join (w : W)
  | destroy (w : W)

variable {W : Type}

/-- No wrapper exists. -/
def State.initial : State W := ⟨fun _ => none, 0, [], false⟩

/-- The thread that a wrapper represents, if it exists and is joinable. -/
def State.threadOf (s : State W) (w : W) : Option ℕ := (s.wrappers w).bind Wrapper.thread

variable [DecidableEq W]

/-- Writing the member of a wrapper. -/
def State.setThread (s : State W) (w : W) (thread : Option ℕ) : State W :=
  let A' := (s.wrappers w).map fun A => { A with thread := thread }
  { s with wrappers := Function.update s.wrappers w A' }

/-- `std::thread::join` of a joinable thread; otherwise nothing.
SRCLINE: thread_guard.h:36-37, jointhread.h:9-12 -/
def State.checkJoin (s : State W) (w : W) : State W :=
  match s.threadOf w with
  | none => s
  | some x => { s.setThread w none with joined := s.joined ++ [x] }

/-- `std::thread::operator=(std::thread&&)`: it calls `std::terminate` when the target is
joinable; otherwise the thread of the source goes over. -/
def State.assignThread (s : State W) (this other : W) : State W :=
  match s.threadOf this with
  | some _ => { s with terminated := true }
  | none => (s.setThread other none).setThread this (s.threadOf other)

/-- SRCLINE: thread_guard.h:40-43 -/
def State.assignGuard (s : State W) (this tg : W) : State W := s.assignThread this tg

/-- SRCLINE: jointhread.h:36-43 -/
def State.assignJointhread (s : State W) (this rhs : W) : State W :=
  (s.checkJoin this).assignThread this rhs

/-- Constructing a wrapper; `thread_guard` asserts that the thread is joinable.
SRCLINE: thread_guard.h:26-27, jointhread.h:29-30 -/
def State.construct (s : State W) (w : W) (cls : Class) (joinable : Bool) : Option (State W) :=
  if (s.wrappers w).isSome ∨ cls = .threadGuard ∧ joinable = false then none
  else
    let A := ⟨cls, if joinable then some s.started else none⟩
    some { s with
      wrappers := Function.update s.wrappers w (some A)
      started := if joinable then s.started + 1 else s.started }

/-- SRCLINE: thread_guard.h:35-38, jointhread.h:44-46 -/
def State.destroy (s : State W) (w : W) : State W :=
  { s.checkJoin w with wrappers := Function.update (s.checkJoin w).wrappers w none }

/-- One call; `none` for a call that a client does not make. -/
def step (s : State W) (op : Op W) : Option (State W) :=
  if s.terminated then none
  else match op with
  | .construct w cls joinable => s.construct w cls joinable
  | .assign this tg =>
    match s.wrappers this, s.wrappers tg with
    | some A, some B =>
      if A.cls = B.cls then
        match A.cls with
        | .threadGuard => some (s.assignGuard this tg)
        | .jointhread => some (s.assignJointhread this tg)
      else none
    | _, _ => none
  | .join w => if (s.threadOf w).isSome then some (s.checkJoin w) else none
  | .destroy w => if (s.wrappers w).isSome then some (s.destroy w) else none

/-- The sequences of calls whose every call meets the condition `G`, and the state they lead
to. -/
inductive Performs (G : State W → Op W → Prop) : List (Op W) → State W → Prop
  | nil : Performs G [] .initial
  | call {ops : List (Op W)} {op : Op W} {s s' : State W} :
      Performs G ops s → G s op → step s op = some s' → Performs G (ops ++ [op]) s'

end UbuntuProjects.ThreadWrappers
