import UbuntuProjects.Analysis.TsStackSwap
import UbuntuProjects.Analysis.TsQueueMoveAssign

/-!
# The operations with two operands

Neither `ts_stack::swap` nor the move assignment of `ts_queue` asks whether its operands are
one object before it locks the mutexes of both.
-/

set_option autoImplicit false

namespace UbuntuProjects

open Concurrency

variable {Obj Tid Q T : Type} [DecidableEq Obj] [DecidableEq Tid] [DecidableEq Q]

/-- **Operands that coincide.** In any state in which the mutexes of the operands are free, a
call of `swap`, the member or the friend, and a move assignment in any reachable state lock
their mutexes safely, return and leave what they are to leave exactly when the operands are
two objects.
SRCLINE: threadsafe_stack.h:312-319, threadsafe_queue.h:135-144 -/
theorem two_operands_tolerated_iff :
    (∀ (c : Config Tid (TsStack.SwapPc Obj) (Obj → TsStack.Shared Tid T)) (t : Tid)
        (this other : Obj),
      ∀ call ∈ [TsStack.SwapCall.member this other, TsStack.SwapCall.friend this other],
        c.pc t = call.entry →
        (∀ q ∈ TsStack.swapMutexes this other, (c.sh q).mMut = none) →
        (TsStack.SwapTolerates c t this other ↔ this ≠ other)) ∧
    (∀ (tr : List (Tid × TsQueue.Lab Q T))
        (c : Config Tid (TsQueue.Pc Q T) (TsQueue.Shared Tid Q T)) (t : Tid) (this other : Q),
      Run TsQueue.QueueStep anyStep (TsQueue.noQueues Tid Q T) tr c →
        c.pc t = .acquire (.moveAssign this other) →
        TsQueue.IsFree c.sh this → TsQueue.IsFree c.sh other →
        (TsQueue.MoveAssignTolerates c t this other ↔ this ≠ other)) := by
  constructor
  · intro c t this other call hcall hpc hfree
    rcases List.mem_pair.mp hcall with rfl | rfl
    · exact TsStack.swapTolerates_iff hpc hfree
    · exact TsStack.swapTolerates_iff hpc hfree
  · intro tr c t this other hrun hpc hthis hother
    exact TsQueue.moveAssignTolerates_iff hrun hpc hthis hother

/-- The stacks with the elements 1 and 2, and a thread that swaps two of them. -/
def twoStacks (this other : Bool) :
    Config Unit (TsStack.SwapPc Bool) (Bool → TsStack.Shared Unit ℕ) :=
  ⟨fun _ => .acquire this other, fun q => ⟨none, [], false, [if q then 1 else 2]⟩⟩

/-- INTERNAL: two queues are constructed and one is being assigned to the other. -/
theorem run_to_moveAssign (this other : Bool) :
    ∃ tr c, Run TsQueue.QueueStep anyStep (TsQueue.noQueues Unit Bool ℕ) tr c ∧
      c.pc () = .acquire (.moveAssign this other) ∧ ∀ q, TsQueue.IsFree c.sh q := by
  have h₁ := (Run.nil : Run TsQueue.QueueStep anyStep (TsQueue.noQueues Unit Bool ℕ) [] _).snoc
    () trivial (.client (.call _ (.create false)))
  have h₂ := h₁.snoc () trivial (.client (.create (a := 0) rfl rfl))
  have h₃ := h₂.snoc () trivial (.client (.ret _ _))
  have h₄ := h₃.snoc () trivial (.client (.call _ (.create true)))
  have h₅ := h₄.snoc () trivial
    (.client (.create (q := true) (a := 1) (by simp [TsQueue.noQueues]) rfl))
  have h₆ := h₅.snoc () trivial (.client (.ret _ _))
  have h₇ := h₆.snoc () trivial (.client (.call _ (.locked (.moveAssign this other))))
  refine ⟨_, _, h₇, rfl, fun q => ?_⟩
  cases q <;> exact ⟨_, rfl, rfl, rfl⟩

/-- Two stacks are swapped, and a queue is assigned to another one. -/
theorem two_operands_tolerated :
    TsStack.SwapTolerates (twoStacks true false) () true false ∧
      ∃ tr c, Run TsQueue.QueueStep anyStep (TsQueue.noQueues Unit Bool ℕ) tr c ∧
        TsQueue.MoveAssignTolerates c () true false := by
  obtain ⟨tr, c, hrun, hpc, hfree⟩ := run_to_moveAssign true false
  constructor
  · exact ((@two_operands_tolerated_iff Bool Unit Bool ℕ _ _ _).1 (twoStacks true false) () true
      false (.member true false) List.mem_cons_self rfl (fun _ _ => rfl)).mpr (by decide)
  · exact ⟨tr, c, hrun, ((@two_operands_tolerated_iff Bool Unit Bool ℕ _ _ _).2 tr c () true false
      hrun hpc (hfree true) (hfree false)).mpr (by decide)⟩

/-- A stack is swapped with itself, and a queue is assigned to itself. -/
theorem one_operand_not_tolerated :
    ¬TsStack.SwapTolerates (twoStacks true true) () true true ∧
      ∃ tr c, Run TsQueue.QueueStep anyStep (TsQueue.noQueues Unit Bool ℕ) tr c ∧
        c.pc () = .acquire (.moveAssign true true) ∧
        ¬TsQueue.MoveAssignTolerates c () true true := by
  obtain ⟨tr, c, hrun, hpc, hfree⟩ := run_to_moveAssign true true
  refine ⟨fun h => ?_, tr, c, hrun, hpc, fun h => ?_⟩
  · have hpc : (twoStacks true true).pc () = .acquire true true := rfl
    exact (TsStack.swapTolerates_iff hpc fun _ _ => rfl).mp h rfl
  · exact (TsQueue.moveAssignTolerates_iff hrun hpc (hfree true) (hfree true)).mp h rfl

end UbuntuProjects
