import UbuntuProjects.Model.ThreadPool

/-!
# `basic_thread_pool`: its constructor

The model of the constructor of `thread_adv::basic_thread_pool` (threadpool.h) and of the
worker threads it starts, when the creation of one of them may fail. The workers run from
the moment they are created, so the constructor is one thread of a program
(`ConstructionStep`). The steps of a worker are those of `PoolStep`, and nobody outside has
the address of the pool yet.

If the creation of a thread throws, the exception leaves the body of the constructor. The
object was never complete, so its destructor, which calls `stop()`, does not run: the
members are destroyed, the last declared first. Destroying an element of `m_threads` joins
its thread. The order in which a vector destroys its elements is not fixed.
-/

set_option autoImplicit false

namespace UbuntuProjects.ThreadPool

open Concurrency (Config)

/-! ## The state -/

/-- Where the constructor is. -/
inductive Build where
  /-- at the test of the loop -/
  | loop (i : ℕ)
  | constructed
  /-- in the destructor of `m_threads`; the threads of these workers are not joined yet -/
  | unwinding (left : List ℕ)
  /-- in the destructors of `m_inner_queues` and `m_queue` -/
  | queues
  /-- the exception has left the constructor -/
  | thrown

/-- The control points of the threads. -/
inductive BuildPc where
  | builder (b : Build)
  | worker (th : Thread Unit)

/-- The members, and how many workers have been created. The thread `some i` is worker `i`,
and `none` is the one that constructs the pool. -/
structure Building where
  pool : Shared (Option ℕ) Unit
  started : ℕ

/-- The inner queue of each worker. -/
def workerHome : Option ℕ → Option (Unit × ℕ) := Option.map fun i => ((), i)

/-! ## Steps -/

/-- The steps of the constructor when the creation of worker `k` fails, and of the workers.
SRCLINE: threadpool.h:105-108, 149-161; jointhread.h:9-12, 49-51 -/
inductive ConstructionStep (threadCount k : ℕ) :
    Option ℕ → BuildPc → Building → Lab Unit → BuildPc → Building → Prop
  | create {s : Building} {i : ℕ} : i < threadCount → i ≠ k →
      ConstructionStep threadCount k none (.builder (.loop i)) s .step
        (.builder (.loop (i + 1))) { s with started := i + 1 }
  | fail {s : Building} : k < threadCount →
      ConstructionStep threadCount k none (.builder (.loop k)) s .step
        (.builder (.unwinding (List.range k))) s
  | constructed {s : Building} {i : ℕ} : threadCount ≤ i →
      ConstructionStep threadCount k none (.builder (.loop i)) s .step
        (.builder .constructed) s
  | join {s : Building} {left : List ℕ} {i : ℕ} : i ∈ left → s.pool.finished (some i) = true →
      ConstructionStep threadCount k none (.builder (.unwinding left)) s .step
        (.builder (.unwinding (left.erase i))) s
  | joined {s : Building} :
      ConstructionStep threadCount k none (.builder (.unwinding [])) s .step
        (.builder .queues) s
  | queues {s : Building} {next : Option DestroyStage} {pool' : Shared (Option ℕ) Unit} :
      DestroyStep workerHome () .queues s.pool next pool' →
      ConstructionStep threadCount k none (.builder .queues) s .step
        (.builder (next.elim .thrown fun _ => .queues)) { s with pool := pool' }
  | worker {s : Building} {i : ℕ} {th th' : Thread Unit} {l : Lab Unit}
      {pool' : Shared (Option ℕ) Unit} : i < s.started →
      PoolStep workerHome (some i) th s.pool l th' pool' →
      ConstructionStep threadCount k (some i) (.worker th) s l (.worker th')
        { s with pool := pool' }

/-- The members as the initializers and `resize` leave them, before the loop of the
constructor.
SRCLINE: threadpool.h:149-156 -/
def buildStart (threadCount : ℕ) : Config (Option ℕ) BuildPc Building :=
  ⟨fun t => t.elim (.builder (.loop 0)) fun i => .worker ⟨none, -1, [.worker () i .initIndex]⟩,
    ⟨⟨fun _ => some ⟨[], false, List.replicate threadCount ⟨none, []⟩⟩, fun _ => false,
      fun _ => false, [], [], []⟩, 0⟩⟩

end UbuntuProjects.ThreadPool
