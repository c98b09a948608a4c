import UbuntuProjects.Concurrency.Program
import Mathlib.Algebra.Ring.Int.Defs

/-!
# `basic_thread_pool`: a pool with an inner queue for each worker

The model of `thread_adv::basic_thread_pool` (threadpool.h) for any number of pool objects of
one template instance. A worker thread belongs to one pool and one of its inner queues
(`home`); any other thread is an outside thread. The statics `tl_p_inner_queue` and
`tl_thread_index` are thread-local members of the template, so each thread has one of each
for all pools.

The queues hold `ptask_wrapper`s, which are numbered in the order of the calls of `assign_task`
that make them. A wrapper refers to the task object of the caller, and what its call finds there
is left to `Model.ThreadPoolTasks`; here a call of a wrapper calls a task. The tasks are client
code and may call the pools again, so a thread has a stack of frames: its own base frame and
above it the calls that are in progress, each `try_work` with its `current_task`. An inner
queue is locked and unlocked around each access. The shared queue is an atomic queue.
-/

set_option autoImplicit false

namespace UbuntuProjects.ThreadPool

/-! ## The state -/

/-- `inner_queue_type`: the front of the deque is the front of the list.
SRCLINE: threadpool.h:52-101 -/
structure InnerQueue (Tid : Type) where
  mMut : Option Tid
  mQueue : List ℕ

/-- The members of a pool object that is alive.
SRCLINE: threadpool.h:105-107 -/
structure Pool (Tid : Type) where
  mQueue : List ℕ
  mStopped : Bool
  mInnerQueues : List (InnerQueue Tid)

/-- The pools that are alive, those that have been destroyed, the threads that have ended,
the pool whose `assign_task` made each wrapper, the calls of wrappers with the pool whose
`try_work` called, and the wrappers that were destroyed uncalled. -/
structure Shared (Tid P : Type) where
  pools : P → Option (Pool Tid)
  destroyed : P → Bool
  finished : Tid → Bool
  given : List P
  called : List (ℕ × P)
  uncalled : List ℕ

/-- Writing a pool object. -/
def Shared.setPool {Tid P : Type} [DecidableEq P] (s : Shared Tid P) (p : P) (D : Pool Tid) :
    Shared Tid P :=
  { s with pools := Function.update s.pools p (some D) }

/-- Writing an inner queue of a pool. -/
def Pool.setInner {Tid : Type} (D : Pool Tid) (i : ℕ) (iq : InnerQueue Tid) : Pool Tid :=
  { D with mInnerQueues := D.mInnerQueues.set i iq }

/-! ## Frames -/

/-- Where a call of `try_work` is. `task` is the wrapper in `current_task` once it is taken. -/
inductive WorkStage where
  /-- in `try_take_task`, before the test of `tl_p_inner_queue` -/
  | start
  | lockOwn
  | popOwn
  | unlockOwn (task : Option ℕ)
  | popGlobal
  /-- in the loop of `try_steal_task` -/
  | steal (i : ℕ)
  | lockSteal (i : ℕ)
  | popSteal (i : ℕ)
  | unlockSteal (i : ℕ) (task : Option ℕ)
  | call (task : ℕ)
  /-- `current_task()` has been called -/
  | calling (task : ℕ)

/-- Where a call of `assign_task` is. -/
inductive AssignStage where
  /-- before the test of `tl_p_inner_queue` -/
  | start
  | lockOwn
  | push
  | unlockOwn
  | pushGlobal

/-- Where a worker is outside `try_work`. -/
inductive WorkerStage where
  /-- in `init_thread`, before `tl_thread_index=index` -/
  | initIndex
  | initQueue
  /-- at the loop test -/
  | loop

/-- Where the destructor is. -/
inductive DestroyStage where
  | stop
  | joinThreads
  /-- what is left of `m_inner_queues` and `m_queue` -/
  | queues

/-- One entry of a thread's stack of calls. -/
inductive Frame (P : Type) where
  /-- an outside thread in its own code -/
  | client
  | worker (p : P) (index : ℕ) (stage : WorkerStage)
  /-- a worker whose function has returned -/
  | exited
  /-- in the body of a task -/
  | task
  | tryWork (p : P) (stage : WorkStage)
  | assignTask (p : P) (task : ℕ) (stage : AssignStage)
  | destroy (p : P) (stage : DestroyStage)

/-- A thread: the thread-local members of the template and the stack of frames. -/
structure Thread (P : Type) where
  tlPInnerQueue : Option (P × ℕ)
  tlThreadIndex : ℤ
  frames : List (Frame P)

/-- The code of the client runs: an outside thread's own, or that of a task. -/
def Frame.runs {P : Type} : Frame P → Prop
  | .client => True
  | .task => True
  | _ => False

/-- `(tl_thread_index+i+1) % sz` in `std::size_t`.
SRCLINE: threadpool.h:118 -/
def stealIndex (tlThreadIndex : ℤ) (i sz : ℕ) : ℕ :=
  ((tlThreadIndex + i + 1) % 2 ^ 64).toNat % sz

section Transitions

variable {P : Type}

/-- After `try_pop` on the own inner queue.
SRCLINE: threadpool.h:129-132 -/
def afterPopOwn : Option ℕ → WorkStage
  | none => .popGlobal
  | some x => .call x

/-- After `try_steal` at the `i`-th round.
SRCLINE: threadpool.h:117-122 -/
def afterSteal (i : ℕ) : Option ℕ → WorkStage
  | none => .steal (i + 1)
  | some x => .call x

end Transitions

/-! ## Steps -/

/-- The label of a step: a call the client's code makes, or nothing visible. -/
inductive Lab (P : Type) where
  | step
  | construct (p : P) (threadCount : ℕ)
  | assignTask (p : P)
  | tryWork (p : P)
  | stop (p : P)
  | destroy (p : P)

section Steps

variable {Tid P : Type} [DecidableEq Tid] [DecidableEq P]

/-- What the client's code does. The constructor makes the inner queues and starts the
workers.
SRCLINE: threadpool.h:149-187 -/
inductive ClientStep :
    Frame P → Shared Tid P → Lab P → List (Frame P) → Shared Tid P → Prop
  | construct {f : Frame P} {s : Shared Tid P} {p : P} {n : ℕ} : f.runs →
      s.pools p = none → s.destroyed p = false → 0 < n →
      ClientStep f s (.construct p n) [f]
        (s.setPool p ⟨[], false, List.replicate n ⟨none, []⟩⟩)
  | assignTask {f : Frame P} {s : Shared Tid P} {p : P} {D : Pool Tid} : f.runs →
      s.pools p = some D →
      ClientStep f s (.assignTask p) [.assignTask p s.given.length .start, f]
        { s with given := s.given ++ [p] }
  | tryWork {f : Frame P} {s : Shared Tid P} {p : P} {D : Pool Tid} : f.runs →
      s.pools p = some D → ClientStep f s (.tryWork p) [.tryWork p .start, f] s
  | stop {f : Frame P} {s : Shared Tid P} {p : P} {D : Pool Tid} : f.runs →
      s.pools p = some D →
      ClientStep f s (.stop p) [f] (s.setPool p { D with mStopped := true })
  | destroy {f : Frame P} {s : Shared Tid P} {p : P} {D : Pool Tid} : f.runs →
      s.pools p = some D → ClientStep f s (.destroy p) [.destroy p .stop, f] s
  | taskDone {s : Shared Tid P} : ClientStep .task s .step [] s

/-- `assign_task` of a thread `t` whose `tl_p_inner_queue` is `own`.
SRCLINE: threadpool.h:65-68, 177-187 -/
inductive AssignStep (t : Tid) (own : Option (P × ℕ)) (p : P) (x : ℕ) :
    AssignStage → Shared Tid P → Option AssignStage → Shared Tid P → Prop
  | startOwn {s : Shared Tid P} {qi : P × ℕ} : own = some qi →
      AssignStep t own p x .start s (some .lockOwn) s
  | startGlobal {s : Shared Tid P} : own = none →
      AssignStep t own p x .start s (some .pushGlobal) s
  | lockOwn {s : Shared Tid P} {q : P} {i : ℕ} {D : Pool Tid} {iq : InnerQueue Tid} :
      own = some (q, i) → s.pools q = some D → D.mInnerQueues[i]? = some iq → iq.mMut = none →
      AssignStep t own p x .lockOwn s (some .push)
        (s.setPool q (D.setInner i { iq with mMut := some t }))
  | push {s : Shared Tid P} {q : P} {i : ℕ} {D : Pool Tid} {iq : InnerQueue Tid} :
      own = some (q, i) → s.pools q = some D → D.mInnerQueues[i]? = some iq →
      AssignStep t own p x .push s (some .unlockOwn)
        (s.setPool q (D.setInner i { iq with mQueue := iq.mQueue ++ [x] }))
  | unlockOwn {s : Shared Tid P} {q : P} {i : ℕ} {D : Pool Tid} {iq : InnerQueue Tid} :
      own = some (q, i) → s.pools q = some D → D.mInnerQueues[i]? = some iq →
      AssignStep t own p x .unlockOwn s none
        (s.setPool q (D.setInner i { iq with mMut := none }))
  | pushGlobal {s : Shared Tid P} {D : Pool Tid} : s.pools p = some D →
      AssignStep t own p x .pushGlobal s none
        (s.setPool p { D with mQueue := D.mQueue ++ [x] })

/-- `try_work` of a thread `t` with the thread-local members `own` and `index`, up to the
call of the task.
SRCLINE: threadpool.h:70-86, 115-133, 170-175 -/
inductive WorkStep (t : Tid) (own : Option (P × ℕ)) (index : ℤ) (p : P) :
    WorkStage → Shared Tid P → Option WorkStage → Shared Tid P → Prop
  | startOwn {s : Shared Tid P} {qi : P × ℕ} : own = some qi →
      WorkStep t own index p .start s (some .lockOwn) s
  | startGlobal {s : Shared Tid P} : own = none →
      WorkStep t own index p .start s (some .popGlobal) s
  | lockOwn {s : Shared Tid P} {q : P} {i : ℕ} {D : Pool Tid} {iq : InnerQueue Tid} :
      own = some (q, i) → s.pools q = some D → D.mInnerQueues[i]? = some iq → iq.mMut = none →
      WorkStep t own index p .lockOwn s (some .popOwn)
        (s.setPool q (D.setInner i { iq with mMut := some t }))
  | popOwnEmpty {s : Shared Tid P} {q : P} {i : ℕ} {D : Pool Tid} {iq : InnerQueue Tid} :
      own = some (q, i) → s.pools q = some D → D.mInnerQueues[i]? = some iq → iq.mQueue = [] →
      WorkStep t own index p .popOwn s (some (.unlockOwn none)) s
  | popOwn {s : Shared Tid P} {q : P} {i x : ℕ} {rest : List ℕ} {D : Pool Tid}
      {iq : InnerQueue Tid} :
      own = some (q, i) → s.pools q = some D → D.mInnerQueues[i]? = some iq →
      iq.mQueue = x :: rest →
      WorkStep t own index p .popOwn s (some (.unlockOwn (some x)))
        (s.setPool q (D.setInner i { iq with mQueue := rest }))
  | unlockOwn {s : Shared Tid P} {q : P} {i : ℕ} {task : Option ℕ} {D : Pool Tid}
      {iq : InnerQueue Tid} :
      own = some (q, i) → s.pools q = some D → D.mInnerQueues[i]? = some iq →
      WorkStep t own index p (.unlockOwn task) s (some (afterPopOwn task))
        (s.setPool q (D.setInner i { iq with mMut := none }))
  | popGlobalEmpty {s : Shared Tid P} {D : Pool Tid} : s.pools p = some D → D.mQueue = [] →
      WorkStep t own index p .popGlobal s (some (.steal 0)) s
  | popGlobal {s : Shared Tid P} {D : Pool Tid} {x : ℕ} {rest : List ℕ} :
      s.pools p = some D → D.mQueue = x :: rest →
      WorkStep t own index p .popGlobal s (some (.call x))
        (s.setPool p { D with mQueue := rest })
  | steal {s : Shared Tid P} {D : Pool Tid} {i : ℕ} : s.pools p = some D →
      i < D.mInnerQueues.length →
      WorkStep t own index p (.steal i) s (some (.lockSteal i)) s
  /-- nothing was found: `yield` and return -/
  | stealEnd {s : Shared Tid P} {D : Pool Tid} {i : ℕ} : s.pools p = some D →
      D.mInnerQueues.length ≤ i → WorkStep t own index p (.steal i) s none s
  | lockSteal {s : Shared Tid P} {D : Pool Tid} {i j : ℕ} {iq : InnerQueue Tid} :
      s.pools p = some D → j = stealIndex index i D.mInnerQueues.length →
      D.mInnerQueues[j]? = some iq → iq.mMut = none →
      WorkStep t own index p (.lockSteal i) s (some (.popSteal i))
        (s.setPool p (D.setInner j { iq with mMut := some t }))
  | popStealEmpty {s : Shared Tid P} {D : Pool Tid} {i j : ℕ} {iq : InnerQueue Tid} :
      s.pools p = some D → j = stealIndex index i D.mInnerQueues.length →
      D.mInnerQueues[j]? = some iq → iq.mQueue = [] →
      WorkStep t own index p (.popSteal i) s (some (.unlockSteal i none)) s
  | popSteal {s : Shared Tid P} {D : Pool Tid} {i j x : ℕ} {rest : List ℕ}
      {iq : InnerQueue Tid} :
      s.pools p = some D → j = stealIndex index i D.mInnerQueues.length →
      D.mInnerQueues[j]? = some iq → iq.mQueue = rest ++ [x] →
      WorkStep t own index p (.popSteal i) s (some (.unlockSteal i (some x)))
        (s.setPool p (D.setInner j { iq with mQueue := rest }))
  | unlockSteal {s : Shared Tid P} {D : Pool Tid} {i j : ℕ} {task : Option ℕ}
      {iq : InnerQueue Tid} :
      s.pools p = some D → j = stealIndex index i D.mInnerQueues.length →
      D.mInnerQueues[j]? = some iq →
      WorkStep t own index p (.unlockSteal i task) s (some (afterSteal i task))
        (s.setPool p (D.setInner j { iq with mMut := none }))
  /-- the task has returned and `current_task` is destroyed -/
  | calling {s : Shared Tid P} {x : ℕ} : WorkStep t own index p (.calling x) s none s

/-- The destructor: `stop()`, then the members are destroyed, the last declared first. The
threads are joined, and what is left in the queues is destroyed.
SRCLINE: threadpool.h:105-108, 165-168 -/
inductive DestroyStep (home : Tid → Option (P × ℕ)) (p : P) :
    DestroyStage → Shared Tid P → Option DestroyStage → Shared Tid P → Prop
  | stop {s : Shared Tid P} {D : Pool Tid} : s.pools p = some D →
      DestroyStep home p .stop s (some .joinThreads) (s.setPool p { D with mStopped := true })
  | joinThreads {s : Shared Tid P} {D : Pool Tid} : s.pools p = some D →
      (∀ u i, home u = some (p, i) → i < D.mInnerQueues.length → s.finished u = true) →
      DestroyStep home p .joinThreads s (some .queues) s
  | innerQueue {s : Shared Tid P} {D : Pool Tid} {rest : List (InnerQueue Tid)}
      {iq : InnerQueue Tid} : s.pools p = some D → D.mInnerQueues = rest ++ [iq] →
      DestroyStep home p .queues s (some .queues)
        { s.setPool p { D with mInnerQueues := rest } with uncalled := s.uncalled ++ iq.mQueue }
  | queue {s : Shared Tid P} {D : Pool Tid} : s.pools p = some D → D.mInnerQueues = [] →
      DestroyStep home p .queues s none
        { s with
          pools := Function.update s.pools p none
          destroyed := Function.update s.destroyed p true
          uncalled := s.uncalled ++ D.mQueue }

/-- The steps of one thread: those of its top frame.
SRCLINE: threadpool.h:110-113, 135-175 -/
inductive PoolStep (home : Tid → Option (P × ℕ)) (t : Tid) :
    Thread P → Shared Tid P → Lab P → Thread P → Shared Tid P → Prop
  | client {own : Option (P × ℕ)} {index : ℤ} {f : Frame P} {fs rest : List (Frame P)}
      {s s' : Shared Tid P} {l : Lab P} : ClientStep f s l fs s' →
      PoolStep home t ⟨own, index, f :: rest⟩ s l ⟨own, index, fs ++ rest⟩ s'
  | assignTask {own : Option (P × ℕ)} {index : ℤ} {p : P} {x : ℕ} {stage : AssignStage}
      {next : Option AssignStage} {rest : List (Frame P)} {s s' : Shared Tid P} :
      AssignStep t own p x stage s next s' →
      PoolStep home t ⟨own, index, .assignTask p x stage :: rest⟩ s .step
        ⟨own, index, (next.map (Frame.assignTask p x)).toList ++ rest⟩ s'
  | tryWork {own : Option (P × ℕ)} {index : ℤ} {p : P} {stage : WorkStage}
      {next : Option WorkStage} {rest : List (Frame P)} {s s' : Shared Tid P} :
      WorkStep t own index p stage s next s' →
      PoolStep home t ⟨own, index, .tryWork p stage :: rest⟩ s .step
        ⟨own, index, (next.map (Frame.tryWork p)).toList ++ rest⟩ s'
  | call {own : Option (P × ℕ)} {index : ℤ} {p : P} {x : ℕ} {rest : List (Frame P)}
      {s : Shared Tid P} :
      PoolStep home t ⟨own, index, .tryWork p (.call x) :: rest⟩ s .step
        ⟨own, index, .task :: .tryWork p (.calling x) :: rest⟩
        { s with called := s.called ++ [(x, p)] }
  | destroy {own : Option (P × ℕ)} {index : ℤ} {p : P} {stage : DestroyStage}
      {next : Option DestroyStage} {rest : List (Frame P)} {s s' : Shared Tid P} :
      DestroyStep home p stage s next s' →
      PoolStep home t ⟨own, index, .destroy p stage :: rest⟩ s .step
        ⟨own, index, (next.map (Frame.destroy p)).toList ++ rest⟩ s'
  /-- the first step of a worker, once its pool has started it -/
  | initIndex {own : Option (P × ℕ)} {index : ℤ} {p : P} {i : ℕ} {rest : List (Frame P)}
      {s : Shared Tid P} {D : Pool Tid} : s.pools p = some D → i < D.mInnerQueues.length →
      PoolStep home t ⟨own, index, .worker p i .initIndex :: rest⟩ s .step
        ⟨own, i, .worker p i .initQueue :: rest⟩ s
  | initQueue {own : Option (P × ℕ)} {index : ℤ} {p : P} {i : ℕ} {rest : List (Frame P)}
      {s : Shared Tid P} :
      PoolStep home t ⟨own, index, .worker p i .initQueue :: rest⟩ s .step
        ⟨some (p, i), index, .worker p i .loop :: rest⟩ s
  | work {own : Option (P × ℕ)} {index : ℤ} {p : P} {i : ℕ} {rest : List (Frame P)}
      {s : Shared Tid P} {D : Pool Tid} : s.pools p = some D → D.mStopped = false →
      PoolStep home t ⟨own, index, .worker p i .loop :: rest⟩ s .step
        ⟨own, index, .tryWork p .start :: .worker p i .loop :: rest⟩ s
  | exit {own : Option (P × ℕ)} {index : ℤ} {p : P} {i : ℕ} {rest : List (Frame P)}
      {s : Shared Tid P} {D : Pool Tid} : s.pools p = some D → D.mStopped = true →
      PoolStep home t ⟨own, index, .worker p i .loop :: rest⟩ s .step
        ⟨own, index, .exited :: rest⟩ { s with finished := Function.update s.finished t true }

end Steps

/-! ## Initial configurations -/

/-- A thread that has not run yet: a worker that its pool will start, or an outside thread. -/
def firstFrame {P : Type} : Option (P × ℕ) → Frame P
  | some (p, i) => .worker p i .initIndex
  | none => .client

/-- No pool has been constructed.
SRCLINE: threadpool.h:189-196 -/
def start {Tid P : Type} (home : Tid → Option (P × ℕ)) :
    Concurrency.Config Tid (Thread P) (Shared Tid P) :=
  ⟨fun t => ⟨none, -1, [firstFrame (home t)]⟩,
    ⟨fun _ => none, fun _ => false, fun _ => false, [], [], []⟩⟩

end UbuntuProjects.ThreadPool
