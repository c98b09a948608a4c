import UbuntuProjects.Model.TsQueue

/-!
# The move operations of `ts_queue` when `new node` throws

Both move operations hand the nodes of `other` over to `this` before they allocate the new
dummy node of `other`. If that allocation throws, the move constructor destroys the members
it has constructed, and the move assignment leaves both objects as they are at that point.
In both cases `std::scoped_lock` releases its mutexes on the way out.
-/

set_option autoImplicit false

namespace UbuntuProjects.TsQueue

variable {Q T : Type}

/-- Destroying an owning pointer: `~node` deletes the node that `m_next` owns before the
node itself is deallocated.
SRCLINE: threadsafe_queue.h:34-45 -/
inductive Deletes :
    (Addr → Option (Node T)) → Option Addr → (Addr → Option (Node T)) → Prop
  | null (heap : Addr → Option (Node T)) : Deletes heap none heap
  | node {heap heap' : Addr → Option (Node T)} {a : Addr} {nd : Node T} :
      heap a = some nd → Deletes heap nd.mNext heap' →
      Deletes heap (some a) (Function.update heap' a none)

/-- From the first statement of the move to the state after the exception.
SRCLINE: threadsafe_queue.h:123-144 -/
inductive NewThrows {Tid : Type} [DecidableEq Q] :
    Section Q → Shared Tid Q T → Shared Tid Q T → Prop
  /-- `m_head` of the new object owns all nodes when it is destroyed -/
  | moveConstruct {s : Shared Tid Q T} {this other : Q} {O : Queue Tid}
      {heap' : Addr → Option (Node T)} :
      s.queues this = none → s.queues other = some O → Deletes s.heap O.mHead heap' →
      NewThrows (.moveConstruct this other) s
        (Shared.setQueue ⟨heap', s.queues⟩ other
          { O with mHeadMut := none, mTailMut := none, mHead := none })
  /-- `m_head=std::move(other.m_head)` has deleted what `m_head` owned; `m_tail` is not yet
  assigned -/
  | moveAssign {s : Shared Tid Q T} {this other : Q} {D O : Queue Tid}
      {heap' : Addr → Option (Node T)} :
      s.queues this = some D → s.queues other = some O → Deletes s.heap D.mHead heap' →
      NewThrows (.moveAssign this other) s
        ((Shared.setQueue ⟨heap', s.queues⟩ other
          { O with mHeadMut := none, mTailMut := none, mHead := none }).setQueue this
          { D with mHeadMut := none, mTailMut := none, mHead := O.mHead })

end UbuntuProjects.TsQueue
