import UbuntuProjects.Model.ThreadPool

/-!
# The `packaged_task` objects of the pools' clients

In the constructor of `ptask_wrapper` the type `decltype(pt)` is `std::packaged_task<T()>&&`, so
`impl<decltype(pt)>::m_callable` is a reference to the object that the caller of `assign_task`
passed. A wrapper owns no task: it calls what this object holds when it is called. The steps
here are those of the pools, those of the clients on their objects, and the calls through the
references. The tasks that were given to `assign_task` are numbered in the order of the
calls, as the wrappers are.
-/

set_option autoImplicit false

namespace UbuntuProjects.ThreadPool

/-- What a `packaged_task` object holds: no task, if it was default-constructed or moved from,
or a task, with its number if it was given to `assign_task`, whether its future has been taken
(`get_future`), and whether it has been called. -/
inductive PackagedTask where
  | empty
  | stored (given : Option ℕ) (future called : Bool)
  deriving DecidableEq

/-- The task can be called. Otherwise `operator()` throws `std::future_error`. -/
def PackagedTask.callable : PackagedTask → Bool
  | .stored _ _ false => true
  | _ => false

/-- The pools, and the objects of the clients that are alive. `mCallable` holds the object that
each wrapper refers to, and `ran` the tasks that were called by a pool's `try_work`. A call
that throws in a worker ends the program.
SRCLINE: threadpool.h:14-50 -/
structure World (Tid P O : Type) where
  pools : Shared Tid P
  objects : O → Option PackagedTask
  mCallable : List O
  ran : List (Option ℕ × P)
  terminated : Bool

/-- What a client does to its objects. -/
inductive ObjectOp (O : Type) where
  /-- construction with a function, `reset`, or an assignment that puts a new task into the
  object -/
  | create (o : O)
  | destroy (o : O)
  /-- move construction or move assignment -/
  | move (source target : O)
  | getFuture (o : O)
  | call (o : O)

/-- The objects that the operation changes. -/
def ObjectOp.changes {O : Type} : ObjectOp O → List O
  | .create o => [o]
  | .destroy o => [o]
  | .move source target => [source, target]
  | .getFuture o => [o]
  | .call o => [o]

/-- The label of a step: a step of the pools, a call of `assign_task` with its argument, or what
a client does to its objects. -/
inductive TaskLab (P O : Type) where
  | pool (l : Lab P)
  | assignTask (p : P) (o : O)
  | object (op : ObjectOp O)

section Steps

variable {Tid P O : Type} [DecidableEq Tid] [DecidableEq P] [DecidableEq O]

/-- Writing an object. -/
def World.setObject (w : World Tid P O) (o : O) (pt : Option PackagedTask) : World Tid P O :=
  { w with objects := Function.update w.objects o pt }

/-- The steps of a client on its objects. -/
inductive ObjectStep : ObjectOp O → World Tid P O → World Tid P O → Prop
  | create {w : World Tid P O} {o : O} :
      ObjectStep (.create o) w (w.setObject o (some (.stored none false false)))
  | destroy {w : World Tid P O} {o : O} {pt : PackagedTask} : w.objects o = some pt →
      ObjectStep (.destroy o) w (w.setObject o none)
  | move {w : World Tid P O} {source target : O} {pt : PackagedTask} : source ≠ target →
      w.objects source = some pt →
      ObjectStep (.move source target) w
        ((w.setObject target (some pt)).setObject source (some .empty))
  | getFuture {w : World Tid P O} {o : O} {g : Option ℕ} {called : Bool} :
      w.objects o = some (.stored g false called) →
      ObjectStep (.getFuture o) w (w.setObject o (some (.stored g true called)))
  | call {w : World Tid P O} {o : O} {g : Option ℕ} {future : Bool} :
      w.objects o = some (.stored g future false) →
      ObjectStep (.call o) w (w.setObject o (some (.stored g future true)))

/-- The thread is about to call a wrapper. -/
def Thread.AboutToCall (th : Thread P) (p : P) (x : ℕ) : Prop :=
  ∃ rest, th.frames = .tryWork p (.call x) :: rest

/-- The steps of one thread. `assign_task` takes the future first. If the object holds no task,
or one whose future was taken, it throws and has done nothing. A call through a reference to an
object that is not alive is undefined and no step. -/
inductive TaskStep (home : Tid → Option (P × ℕ)) (t : Tid) :
    Thread P → World Tid P O → TaskLab P O → Thread P → World Tid P O → Prop
  | pool {th th' : Thread P} {w : World Tid P O} {l : Lab P} {s' : Shared Tid P} :
      w.terminated = false → (∀ p, l ≠ .assignTask p) → (∀ p x, ¬ th.AboutToCall p x) →
      PoolStep home t th w.pools l th' s' →
      TaskStep home t th w (.pool l) th' { w with pools := s' }
  | object {own : Option (P × ℕ)} {index : ℤ} {f : Frame P} {rest : List (Frame P)}
      {op : ObjectOp O} {w w' : World Tid P O} : w.terminated = false → f.runs →
      ObjectStep op w w' →
      TaskStep home t ⟨own, index, f :: rest⟩ w (.object op) ⟨own, index, f :: rest⟩ w'
  /-- SRCLINE: threadpool.h:35-37, 177-187 -/
  | assignTask {th th' : Thread P} {w : World Tid P O} {p : P} {o : O} {called : Bool}
      {s' : Shared Tid P} : w.terminated = false →
      w.objects o = some (.stored none false called) →
      PoolStep home t th w.pools (.assignTask p) th' s' →
      TaskStep home t th w (.assignTask p o) th'
        { w.setObject o (some (.stored (some w.pools.given.length) true called)) with
          pools := s', mCallable := w.mCallable ++ [o] }
  /-- SRCLINE: threadpool.h:26-28, 44-46, 170-173 -/
  | call {th th' : Thread P} {w : World Tid P O} {p : P} {x : ℕ} {o : O} {g : Option ℕ}
      {future : Bool} {s' : Shared Tid P} : w.terminated = false → th.AboutToCall p x →
      w.mCallable[x]? = some o → w.objects o = some (.stored g future false) →
      PoolStep home t th w.pools .step th' s' →
      TaskStep home t th w (.pool .step) th'
        { w.setObject o (some (.stored g future true)) with pools := s', ran := w.ran ++ [(g, p)] }
  /-- the exception leaves `try_work` and reaches the code of a client -/
  | callThrows {own : Option (P × ℕ)} {index : ℤ} {p : P} {x : ℕ} {f : Frame P}
      {rest : List (Frame P)} {w : World Tid P O} {o : O} {pt : PackagedTask} :
      w.terminated = false → w.mCallable[x]? = some o → w.objects o = some pt →
      pt.callable = false → f.runs →
      TaskStep home t ⟨own, index, .tryWork p (.call x) :: f :: rest⟩ w (.pool .step)
        ⟨own, index, f :: rest⟩
        { w with pools := { w.pools with called := w.pools.called ++ [(x, p)] } }
  /-- the exception reaches `thread_worker`, which stops the pool and throws it on
  (threadpool.h:142-145) -/
  | callTerminates {own : Option (P × ℕ)} {index : ℤ} {p q : P} {i x : ℕ}
      {stage : WorkerStage} {rest : List (Frame P)} {w : World Tid P O} {D : Pool Tid} {o : O}
      {pt : PackagedTask} :
      w.terminated = false → w.mCallable[x]? = some o → w.objects o = some pt →
      pt.callable = false → w.pools.pools q = some D →
      TaskStep home t ⟨own, index, .tryWork p (.call x) :: .worker q i stage :: rest⟩ w
        (.pool .step) ⟨own, index, .worker q i stage :: rest⟩
        { w with
          pools := { w.pools.setPool q { D with mStopped := true } with
            called := w.pools.called ++ [(x, p)] }
          terminated := true }

end Steps

/-- No pool has been constructed, and no object. -/
def taskStart {Tid P O : Type} (home : Tid → Option (P × ℕ)) :
    Concurrency.Config Tid (Thread P) (World Tid P O) :=
  ⟨(start home).pc, ⟨(start home).sh, fun _ => none, [], [], false⟩⟩

end UbuntuProjects.ThreadPool
