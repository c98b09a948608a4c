import UbuntuProjects.Model.TsQueueOverlap
import UbuntuProjects.Memory.Lifetimes
import Mathlib.Logic.Relation

/-!
# The pushes of `ts_queue` when something throws

`emplace` and `push_range` once more, statement by statement, with the exceptions:
allocating a node, copying an argument into a parameter of `construct_data`, constructing
the element, locking the mutex and the operations of the iterators may throw. `Args...args`
are by-value parameters, so every call of `construct_data` makes objects of its own and
destroys them when it is left. The element lies over the members of its node as far as it
reaches (TsQueueOverlap), and a constructor that throws may have written any of its bytes.

An exception destroys what the call owns in the reverse order of its construction: the
parameters of `construct_data`, then `lg`, then the local `unique_ptr`, whose node destroys
its element if the flag `initialized` is set, and deletes the node its `m_next` owns.
-/

set_option autoImplicit false

namespace UbuntuProjects.TsQueue

open Memory (Life Storable)

/-! ## The state -/

/-- The objects whose lifetimes are recorded: the parameters of `construct_data` in the
order of their construction, and the elements in the nodes. -/
inductive Obj where
  | arg (i : ℕ)
  | element (a : Addr)
  deriving DecidableEq

/-- The state shared with the other threads, the number of parameters constructed so far,
and the record of the call. -/
structure PushState (Tid Q T : Type) where
  sh : Shared Tid Q T
  args : ℕ
  log : List (Life Obj)

section Updates

variable {Tid Q T : Type}

/-- Something happens to an object. -/
def PushState.record (s : PushState Tid Q T) (l : Life Obj) : PushState Tid Q T :=
  { s with log := s.log ++ [l] }

/-- Another state shared with the other threads. -/
def PushState.setShared (s : PushState Tid Q T) (sh : Shared Tid Q T) : PushState Tid Q T :=
  { s with sh := sh }

end Updates

/-- The node that `construct_data` is called for: the last one of the subqueue in the loop
of `push_range`, or the last one of the queue. -/
inductive Target (T : Type) where
  | sub (rest : List T) (headSub tailSub : Addr)
  | tail (appended : Sub)

/-- The node that the local `unique_ptr` owns meanwhile. -/
def Target.owned {T : Type} : Target T → Addr
  | .sub _ headSub _ => headSub
  | .tail appended => appended.first

/-- `m_tail_mut` is locked meanwhile. -/
def Target.locked {T : Type} : Target T → Bool
  | .sub _ _ _ => false
  | .tail _ => true

/-- The address of the node. -/
def Target.node {Tid Q T : Type} (s : Shared Tid Q T) (q : Q) : Target T → Option Addr
  | .sub _ _ tailSub => some tailSub
  | .tail _ => (s.queues q).bind Queue.mTail

/-- Where a push is. `v` is the element for the last node of the queue. -/
inductive PushPc (Q T : Type) where
  /-- before `make_unique<node>()`; `n` is the number of the arguments -/
  | emplace (q : Q) (v : T) (n : ℕ)
  | pushRange (q : Q) (r : Range T)
  /-- after `std::next(beg)`; `v` is what `*beg` will yield -/
  | makeHead (q : Q) (v : T) (rest : List T)
  | loop (q : Q) (v : T) (rest : List T) (headSub tailSub : Addr)
  | lockTail (q : Q) (v : T) (n : ℕ) (sub : Sub)
  /-- at a call of `construct_data`; `left` arguments are not copied yet, and `args` are the
  parameters, the last one first -/
  | copyArgs (q : Q) (v w : T) (tgt : Target T) (left : ℕ) (args : List ℕ)
  | construct (q : Q) (v w : T) (tgt : Target T) (args : List ℕ)
  | endArgs (q : Q) (v : T) (tgt : Target T) (args : List ℕ)
  | makeNext (q : Q) (v : T) (rest : List T) (headSub tailSub : Addr)
  | linkNext (q : Q) (sub : Sub)
  | moveTail (q : Q) (sub : Sub)
  | unlockTail (q : Q)
  | returned
  /-- something has thrown: what is still to be destroyed -/
  | unwind (q : Q) (args : List ℕ) (locked : Bool) (owned : Addr)
  /-- the exception has left the call -/
  | thrown

/-! ## Steps -/

/-- Destroying an owning pointer, with the elements that `~node` destroys.
SRCLINE: threadsafe_queue.h:34-45 -/
inductive Destroys {T : Type} :
    (Addr → Option (Node T)) → Option Addr → (Addr → Option (Node T)) → List (Life Obj) → Prop
  | null (heap : Addr → Option (Node T)) : Destroys heap none heap []
  | node {heap heap' : Addr → Option (Node T)} {a : Addr} {nd : Node T}
      {log : List (Life Obj)} : heap a = some nd → Destroys heap nd.mNext heap' log →
      Destroys heap (some a) (Function.update heap' a none)
        ((if nd.initialized then [.ends (.element a)] else []) ++ log)

section Steps

variable {Tid Q T : Type} [DecidableEq Q] [Storable T]

/-- The statements of `emplace` and `push_range` up to the exception, if there is one.
SRCLINE: threadsafe_queue.h:50-55, 308-322, 349-370 -/
inductive PushRuns (t : Tid) : PushPc Q T → PushState Tid Q T → PushPc Q T →
    PushState Tid Q T → Prop
  | emplace {s : PushState Tid Q T} {q : Q} {v : T} {n : ℕ} {a : Addr} :
      s.sh.heap a = none →
      PushRuns t (.emplace q v n) s (.lockTail q v n (.node a))
        (s.setShared (s.sh.setNode a .fresh))
  | rangeNil {s : PushState Tid Q T} {q : Q} : PushRuns t (.pushRange q .nil) s .returned s
  | range {s : PushState Tid Q T} {q : Q} {first v : T} {rest : List T} :
      PushRuns t (.pushRange q (.cons first rest v)) s (.makeHead q v rest) s
  | makeHead {s : PushState Tid Q T} {q : Q} {v : T} {rest : List T} {a : Addr} :
      s.sh.heap a = none →
      PushRuns t (.makeHead q v rest) s (.loop q v rest a a)
        (s.setShared (s.sh.setNode a .fresh))
  | loop {s : PushState Tid Q T} {q : Q} {v w : T} {rest : List T} {headSub tailSub : Addr} :
      PushRuns t (.loop q v (w :: rest) headSub tailSub) s
        (.copyArgs q v w (.sub rest headSub tailSub) 1 []) s
  | loopEnd {s : PushState Tid Q T} {q : Q} {v : T} {headSub tailSub : Addr} :
      PushRuns t (.loop q v [] headSub tailSub) s (.lockTail q v 1 (.range headSub tailSub)) s
  | lockTail {s : PushState Tid Q T} {q : Q} {v : T} {n : ℕ} {sub : Sub} {Q' : Queue Tid} :
      s.sh.queues q = some Q' → Q'.mTailMut = none →
      PushRuns t (.lockTail q v n sub) s (.copyArgs q v v (.tail sub) n [])
        (s.setShared (s.sh.setQueue q { Q' with mTailMut := some t }))
  | copyArg {s : PushState Tid Q T} {q : Q} {v w : T} {tgt : Target T} {left : ℕ}
      {args : List ℕ} :
      PushRuns t (.copyArgs q v w tgt (left + 1) args) s
        (.copyArgs q v w tgt left (s.args :: args))
        { s.record (.begins (.arg s.args)) with args := s.args + 1 }
  | copied {s : PushState Tid Q T} {q : Q} {v w : T} {tgt : Target T} {args : List ℕ} :
      PushRuns t (.copyArgs q v w tgt 0 args) s (.construct q v w tgt args) s
  | construct {s : PushState Tid Q T} {q : Q} {v w : T} {tgt : Target T} {args : List ℕ}
      {a : Addr} {nd : Node T} : tgt.node s.sh q = some a → s.sh.heap a = some nd →
      PushRuns t (.construct q v w tgt args) s (.endArgs q v tgt args)
        ((s.setShared (s.sh.setNode a (nd.construct w).setInitialized)).record
          (.begins (.element a)))
  | endArg {s : PushState Tid Q T} {q : Q} {v : T} {tgt : Target T} {i : ℕ} {args : List ℕ} :
      PushRuns t (.endArgs q v tgt (i :: args)) s (.endArgs q v tgt args)
        (s.record (.ends (.arg i)))
  | constructedSub {s : PushState Tid Q T} {q : Q} {v : T} {rest : List T}
      {headSub tailSub : Addr} :
      PushRuns t (.endArgs q v (.sub rest headSub tailSub) []) s
        (.makeNext q v rest headSub tailSub) s
  | constructedTail {s : PushState Tid Q T} {q : Q} {v : T} {sub : Sub} :
      PushRuns t (.endArgs q v (.tail sub) []) s (.linkNext q sub) s
  | makeNext {s : PushState Tid Q T} {q : Q} {v : T} {rest : List T} {headSub tailSub a : Addr}
      {heap' : Addr → Option (Node T)} : s.sh.heap a = none →
      Links (s.sh.setNode a .fresh).heap tailSub a heap' →
      PushRuns t (.makeNext q v rest headSub tailSub) s (.loop q v rest headSub a)
        (s.setShared ⟨heap', s.sh.queues⟩)
  | linkNext {s : PushState Tid Q T} {q : Q} {sub : Sub} {Q' : Queue Tid} {tl : Addr}
      {heap' : Addr → Option (Node T)} : s.sh.queues q = some Q' → Q'.mTail = some tl →
      Links s.sh.heap tl sub.first heap' →
      PushRuns t (.linkNext q sub) s (.moveTail q sub) (s.setShared ⟨heap', s.sh.queues⟩)
  | moveTail {s : PushState Tid Q T} {q : Q} {a : Addr} {Q' : Queue Tid} {tl : Addr}
      {nd : Node T} : s.sh.queues q = some Q' → Q'.mTail = some tl → s.sh.heap tl = some nd →
      PushRuns t (.moveTail q (.node a)) s (.unlockTail q)
        (s.setShared (s.sh.setQueue q { Q' with mTail := nd.mNext }))
  | moveTailRange {s : PushState Tid Q T} {q : Q} {headSub tailSub : Addr} {Q' : Queue Tid} :
      s.sh.queues q = some Q' →
      PushRuns t (.moveTail q (.range headSub tailSub)) s (.unlockTail q)
        (s.setShared (s.sh.setQueue q { Q' with mTail := some tailSub }))
  | unlockTail {s : PushState Tid Q T} {q : Q} {Q' : Queue Tid} : s.sh.queues q = some Q' →
      PushRuns t (.unlockTail q) s .returned
        (s.setShared (s.sh.setQueue q { Q' with mTailMut := none }))

/-- What can throw, and what the exception leaves to be destroyed. -/
inductive Throws : PushPc Q T → PushState Tid Q T → PushPc Q T → PushState Tid Q T → Prop
  /-- `make_unique<node>()` in `emplace` -/
  | emplace (s : PushState Tid Q T) (q : Q) (v : T) (n : ℕ) :
      Throws (.emplace q v n) s .thrown s
  /-- `beg==end` or `std::next(beg)` -/
  | range (s : PushState Tid Q T) (q : Q) (r : Range T) : Throws (.pushRange q r) s .thrown s
  /-- `make_unique<node>()` for `head_sub` -/
  | makeHead (s : PushState Tid Q T) (q : Q) (v : T) (rest : List T) :
      Throws (.makeHead q v rest) s .thrown s
  /-- `it!=end` or `++it` -/
  | loop (s : PushState Tid Q T) (q : Q) (v : T) (rest : List T) (headSub tailSub : Addr) :
      Throws (.loop q v rest headSub tailSub) s (.unwind q [] false headSub) s
  | lockTail (s : PushState Tid Q T) (q : Q) (v : T) (n : ℕ) (sub : Sub) :
      Throws (.lockTail q v n sub) s (.unwind q [] false sub.first) s
  /-- copying an argument, or `*it` or `*beg` -/
  | copyArg (s : PushState Tid Q T) (q : Q) (v w : T) (tgt : Target T) (left : ℕ)
      (args : List ℕ) :
      Throws (.copyArgs q v w tgt (left + 1) args) s (.unwind q args tgt.locked tgt.owned) s
  /-- the constructor of the element, which leaves the bytes `bs` where it was to be -/
  | construct {s : PushState Tid Q T} {q : Q} (v w : T) {tgt : Target T} (args : List ℕ)
      {a : Addr} {nd : Node T} (bs : List UInt8) :
      tgt.node s.sh q = some a → s.sh.heap a = some nd → bs.length = Storable.size T →
      Throws (.construct q v w tgt args) s (.unwind q args tgt.locked tgt.owned)
        (s.setShared (s.sh.setNode a (nd.overlay bs)))
  /-- `make_unique<node>()` for `m_next` -/
  | makeNext (s : PushState Tid Q T) (q : Q) (v : T) (rest : List T) (headSub tailSub : Addr) :
      Throws (.makeNext q v rest headSub tailSub) s (.unwind q [] false headSub) s

/-- The destructors that the exception runs. -/
inductive Unwinds : PushPc Q T → PushState Tid Q T → PushPc Q T → PushState Tid Q T → Prop
  | arg {s : PushState Tid Q T} {q : Q} {i : ℕ} {args : List ℕ} {locked : Bool} {owned : Addr} :
      Unwinds (.unwind q (i :: args) locked owned) s (.unwind q args locked owned)
        (s.record (.ends (.arg i)))
  | lock {s : PushState Tid Q T} {q : Q} {owned : Addr} {Q' : Queue Tid} :
      s.sh.queues q = some Q' →
      Unwinds (.unwind q [] true owned) s (.unwind q [] false owned)
        (s.setShared (s.sh.setQueue q { Q' with mTailMut := none }))
  | owned {s : PushState Tid Q T} {q : Q} {owned : Addr} {heap' : Addr → Option (Node T)}
      {log : List (Life Obj)} : Destroys s.sh.heap (some owned) heap' log →
      Unwinds (.unwind q [] false owned) s .thrown
        { s with sh := ⟨heap', s.sh.queues⟩, log := s.log ++ log }

/-- The steps of a push by thread `t`. -/
inductive PushMoves (t : Tid) :
    PushPc Q T × PushState Tid Q T → PushPc Q T × PushState Tid Q T → Prop
  | runs {p p' : PushPc Q T} {s s' : PushState Tid Q T} : PushRuns t p s p' s' →
      PushMoves t (p, s) (p', s')
  | throws {p p' : PushPc Q T} {s s' : PushState Tid Q T} : Throws p s p' s' →
      PushMoves t (p, s) (p', s')
  | unwinds {p p' : PushPc Q T} {s s' : PushState Tid Q T} : Unwinds p s p' s' →
      PushMoves t (p, s) (p', s')

end Steps

/-- A call at its first statement, in a given state of the queues. -/
def PushState.start {Tid Q T : Type} (sh : Shared Tid Q T) : PushState Tid Q T := ⟨sh, 0, []⟩

/-- The calls that push: `emplace` with `n` arguments, `push`, and `push_range`.
SRCLINE: threadsafe_queue.h:308-322, 348-349 -/
inductive PushEntry {Q T : Type} (q : Q) : PushPc Q T → Prop
  | emplace (v : T) (n : ℕ) : PushEntry q (.emplace q v n)
  | pushRange (r : Range T) : PushEntry q (.pushRange q r)

end UbuntuProjects.TsQueue
