import UbuntuProjects.Model.TsStackSwap

/-!
# Threads that use several `ts_stack` objects

Any number of threads call the members of any number of stacks, swap stacks and construct
a stack from another one. Here the sections under `m_mut` are not single steps: the loops of
the pushes, of the pops and of `clear` run one iteration after another, each test of
`m_interrupt_waiting` and of the predicate is a step of its own, and an element operation
may throw at any iteration.

Of the state of an object it is also known how far its lifetime has come (`Lifetime`). Only
stacks that are alive are used, and a stack is constructed in storage that no other thread
uses.
-/

set_option autoImplicit false

namespace UbuntuProjects.TsStackSystem

open Concurrency (Event Config)
open TsQueue (PopStatus Notify Wait Amount Take)
open TsStack (Shared Op Outcome SwapCall SwapPc SwapStep swapMutexes)

/-! ## The state -/

/-- How far the lifetime of an object has come. -/
inductive Lifetime (Tid : Type) where
  | storage
  | constructing (t : Tid)
  | alive
  deriving DecidableEq

/-- The members of all stacks. -/
structure System (Obj Tid T : Type) where
  stack : Obj → Shared Tid T
  life : Obj → Lifetime Tid

/-! ## Control points -/

/-- The control points inside a member function of one stack. -/
inductive Loc (T : Type) where
  | returning (r : Outcome T)
  /-- before locking `m_mut` in a push of the elements `vs` -/
  | lockPush (vs : List T) (n : Notify)
  /-- in the loop of a push; `vs` are still to be pushed -/
  | pushLoop (vs : List T) (n : Notify)
  | unlockPush (n : Notify)
  | notify (n : Notify)
  | lockPop (k : Take)
  | tryLock
  /-- `try_pop_unprotected` at its test -/
  | testEmpty (k : Take)
  /-- a waiting pop at its first test of `m_interrupt_waiting` -/
  | testInterrupt (k : Take)
  /-- at the predicate of the wait; `last` marks the test after a timeout -/
  | predicate (k : Take) (last : Bool)
  /-- the predicate was false: about to park in `m_cb`, still holding `m_mut` -/
  | park (k : Take)
  | parked (k : Take)
  | relock (k : Take) (last : Bool)
  /-- a waiting pop at its second test of `m_interrupt_waiting` -/
  | retestInterrupt (k : Take)
  /-- in `pop_n_unprotected`, at the loop test -/
  | popLoop (k : Take) (count : ℤ) (out : List T)
  /-- about to move the top element out -/
  | popTop (k : Take) (count : ℤ) (out : List T)
  /-- about to remove the element that was moved -/
  | popDrop (k : Take) (count : ℤ) (out : List T)
  | unlock (r : Outcome T)
  | lockClear
  | clearSize
  | clearLoop (sz : ℕ)
  | lockEmpty
  | empty
  | lockStop
  | setStop
  | notifyStop

section Transitions

variable {T : Type}

/-- The first control point of a member function. -/
def entry : Op T → Loc T
  | .emplace v n => .lockPush [v] n
  | .pushRange vs n => .lockPush vs n
  | .take k => .lockPop k
  | .tryLockAndPop => .tryLock
  | .clear => .lockClear
  | .empty => .lockEmpty
  | .notify n => .notify n
  | .stopWaitings => .lockStop

/-- After the lock guard of a push was destroyed: notify if the called variant does.
SRCLINE: threadsafe_stack.h:254-279, 290-299 -/
def afterPush : Notify → Loc T
  | .none => .returning (.of .unit)
  | n => .notify n

/-- The start of the removal: `pop_unprotected` or `pop_n_unprotected`. -/
def popStart (k : Take) : Loc T :=
  match k.amount with
  | .one => .popTop k 1 []
  | .many count => .popLoop k count []

/-- After `m_mut` was locked at the start of a pop.
SRCLINE: threadsafe_stack.h:61-62, 90-106, 123-125, 141-143, 165-167 -/
def afterLockPop (k : Take) : Loc T :=
  match k.wait with
  | .never =>
    match k.amount with
    | .one => .testEmpty k
    | .many _ => popStart k
  | _ => .testInterrupt k

/-- What `pop` finds in `try_pop_unprotected`.
SRCLINE: threadsafe_stack.h:61-66 -/
def afterTestEmpty (k : Take) (st : List T) : Loc T :=
  if st.isEmpty = true then .unlock (.of (k.result .empty [])) else popStart k

/-- The first test of a waiting pop.
SRCLINE: threadsafe_stack.h:105-106, 125, 142-143, 166-167, 187-188, 210 -/
def afterTestInterrupt (k : Take) (interrupt : Bool) : Loc T :=
  if interrupt = true then .unlock (.of (k.result .interrupted [])) else .predicate k false

/-- What a wait with a predicate does after testing it.
SRCLINE: threadsafe_stack.h:107-112, 126-130, 144-150, 168-174, 189-195, 211-216 -/
def afterPredicate (k : Take) (last interrupt : Bool) (st : List T) : Loc T :=
  if st.isEmpty = false ∨ interrupt = true then .retestInterrupt k
  else if last = true then .unlock (.of (k.result .timeout []))
  else .park k

/-- The second test of a waiting pop.
SRCLINE: threadsafe_stack.h:113-117, 131-133, 151-155, 175-177, 196-200, 217-219 -/
def afterRetest (k : Take) (interrupt : Bool) : Loc T :=
  if interrupt = true then .unlock (.of (k.result .interrupted [])) else popStart k

/-- The loop test of `pop_n_unprotected` and the test for an empty stack in its body.
SRCLINE: threadsafe_stack.h:72-74, 80 -/
def afterPopLoop (k : Take) (count : ℤ) (out st : List T) : Loc T :=
  if count = 0 ∨ st.isEmpty = true then .unlock (.of (k.result .ready out))
  else .popTop k count out

/-- After the top element was removed.
SRCLINE: threadsafe_stack.h:58-65, 76-78 -/
def afterPopDrop (k : Take) (count : ℤ) (out : List T) : Loc T :=
  match k.amount with
  | .one => .unlock (.of (k.result .ready out))
  | .many _ => .popLoop k (count - 1) out

end Transitions

/-! ## Steps inside a member function -/

section Members

variable {Tid T : Type} [DecidableEq Tid]

/-- The pushes: lock, push one element after another, unlock, notify.
SRCLINE: threadsafe_stack.h:235-299 -/
inductive PushStep (t : Tid) : Loc T → Shared Tid T → Loc T → Shared Tid T → Prop
  | lock {s : Shared Tid T} {vs : List T} {n : Notify} : s.mMut = none →
      PushStep t (.lockPush vs n) s (.pushLoop vs n) { s with mMut := some t }
  | push {s : Shared Tid T} {v : T} {vs : List T} {n : Notify} :
      PushStep t (.pushLoop (v :: vs) n) s (.pushLoop vs n) { s with mStack := v :: s.mStack }
  /-- constructing the next element throws -/
  | threw {s : Shared Tid T} {v : T} {vs : List T} {n : Notify} :
      PushStep t (.pushLoop (v :: vs) n) s (.unlock .threw) s
  | pushed {s : Shared Tid T} {n : Notify} :
      PushStep t (.pushLoop [] n) s (.unlockPush n) s
  | unlock {s : Shared Tid T} {n : Notify} :
      PushStep t (.unlockPush n) s (afterPush n) { s with mMut := none }

/-- Notifications and `stop_waitings`.
SRCLINE: threadsafe_stack.h:224-234 -/
inductive NotifyStep (t : Tid) : Loc T → Shared Tid T → Loc T → Shared Tid T → Prop
  /-- `Notify.none` stands for no call of the condition variable -/
  | none {s : Shared Tid T} : NotifyStep t (.notify .none) s (.returning (.of .unit)) s
  | one {s : Shared Tid T} {u : Tid} : u ∈ s.mCb →
      NotifyStep t (.notify .one) s (.returning (.of .unit)) { s with mCb := s.mCb.erase u }
  | nobody {s : Shared Tid T} : s.mCb = [] →
      NotifyStep t (.notify .one) s (.returning (.of .unit)) s
  | all {s : Shared Tid T} :
      NotifyStep t (.notify .all) s (.returning (.of .unit)) { s with mCb := [] }
  | lockStop {s : Shared Tid T} : s.mMut = none →
      NotifyStep t .lockStop s .setStop { s with mMut := some t }
  | setStop {s : Shared Tid T} :
      NotifyStep t .setStop s .notifyStop { s with mInterruptWaiting := true }
  | notifyStop {s : Shared Tid T} :
      NotifyStep t .notifyStop s (.unlock (.of .unit)) { s with mCb := [] }

/-- Waiting for an element: the tests of the flag and of the predicate, parking and waking.
SRCLINE: threadsafe_stack.h:83-220 -/
inductive WaitStep (t : Tid) : Loc T → Shared Tid T → Loc T → Shared Tid T → Prop
  | lock {s : Shared Tid T} {k : Take} : s.mMut = none →
      WaitStep t (.lockPop k) s (afterLockPop k) { s with mMut := some t }
  | tryLock {s : Shared Tid T} : s.mMut = none →
      WaitStep t .tryLock s (.testEmpty ⟨.never, .one⟩) { s with mMut := some t }
  /-- `std::try_to_lock` may fail at any time -/
  | tryLockFail {s : Shared Tid T} :
      WaitStep t .tryLock s (.returning (.of (.status .tryLockFail none))) s
  | testEmpty {s : Shared Tid T} {k : Take} :
      WaitStep t (.testEmpty k) s (afterTestEmpty k s.mStack) s
  | testInterrupt {s : Shared Tid T} {k : Take} :
      WaitStep t (.testInterrupt k) s (afterTestInterrupt k s.mInterruptWaiting) s
  | predicate {s : Shared Tid T} {k : Take} {last : Bool} :
      WaitStep t (.predicate k last) s (afterPredicate k last s.mInterruptWaiting s.mStack) s
  /-- `m_cb.wait` releases `m_mut` and parks the thread in one step -/
  | park {s : Shared Tid T} {k : Take} :
      WaitStep t (.park k) s (.parked k) { s with mMut := none, mCb := t :: s.mCb }
  | notified {s : Shared Tid T} {k : Take} : t ∉ s.mCb →
      WaitStep t (.parked k) s (.relock k false) s
  | spurious {s : Shared Tid T} {k : Take} : t ∈ s.mCb →
      WaitStep t (.parked k) s (.relock k false) { s with mCb := s.mCb.erase t }
  /-- a thread that was notified may still find its time over -/
  | timeout {s : Shared Tid T} {k : Take} : k.wait = .timed →
      WaitStep t (.parked k) s (.relock k true) { s with mCb := s.mCb.erase t }
  | relock {s : Shared Tid T} {k : Take} {last : Bool} : s.mMut = none →
      WaitStep t (.relock k last) s (.predicate k last) { s with mMut := some t }
  | retest {s : Shared Tid T} {k : Take} :
      WaitStep t (.retestInterrupt k) s (afterRetest k s.mInterruptWaiting) s

/-- The removals: the top element is moved out, then removed.
SRCLINE: threadsafe_stack.h:56-59, 68-81 -/
inductive RemoveStep (t : Tid) : Loc T → Shared Tid T → Loc T → Shared Tid T → Prop
  | loop {s : Shared Tid T} {k : Take} {count : ℤ} {out : List T} :
      RemoveStep t (.popLoop k count out) s (afterPopLoop k count out s.mStack) s
  | top {s : Shared Tid T} {k : Take} {count : ℤ} {out st : List T} {v : T} :
      s.mStack = v :: st →
      RemoveStep t (.popTop k count out) s (.popDrop k count (out ++ [v])) s
  /-- moving the top element throws -/
  | threw {s : Shared Tid T} {k : Take} {count : ℤ} {out st : List T} {v : T} :
      s.mStack = v :: st →
      RemoveStep t (.popTop k count out) s (.unlock .threw) s
  | drop {s : Shared Tid T} {k : Take} {count : ℤ} {out : List T} :
      RemoveStep t (.popDrop k count out) s (afterPopDrop k count out)
        { s with mStack := s.mStack.tail }

/-- `clear`, `empty` and the end of every section.
SRCLINE: threadsafe_stack.h:300-311 -/
inductive SectionStep (t : Tid) : Loc T → Shared Tid T → Loc T → Shared Tid T → Prop
  | lockClear {s : Shared Tid T} : s.mMut = none →
      SectionStep t .lockClear s .clearSize { s with mMut := some t }
  | clearSize {s : Shared Tid T} :
      SectionStep t .clearSize s (.clearLoop s.mStack.length) s
  | clearPop {s : Shared Tid T} {sz : ℕ} :
      SectionStep t (.clearLoop (sz + 1)) s (.clearLoop sz) { s with mStack := s.mStack.tail }
  | cleared {s : Shared Tid T} :
      SectionStep t (.clearLoop 0) s (.unlock (.of .unit)) s
  | lockEmpty {s : Shared Tid T} : s.mMut = none →
      SectionStep t .lockEmpty s .empty { s with mMut := some t }
  | empty {s : Shared Tid T} :
      SectionStep t .empty s (.unlock (.of (.bool s.mStack.isEmpty))) s
  | unlock {s : Shared Tid T} {r : Outcome T} :
      SectionStep t (.unlock r) s (.returning r) { s with mMut := none }

/-- The steps of one thread inside a member function of one stack. -/
inductive MemberStep (t : Tid) : Loc T → Shared Tid T → Loc T → Shared Tid T → Prop
  | push {p p' : Loc T} {s s' : Shared Tid T} : PushStep t p s p' s' → MemberStep t p s p' s'
  | notify {p p' : Loc T} {s s' : Shared Tid T} : NotifyStep t p s p' s' → MemberStep t p s p' s'
  | wait {p p' : Loc T} {s s' : Shared Tid T} : WaitStep t p s p' s' → MemberStep t p s p' s'
  | remove {p p' : Loc T} {s s' : Shared Tid T} : RemoveStep t p s p' s' → MemberStep t p s p' s'
  | section {p p' : Loc T} {s s' : Shared Tid T} :
      SectionStep t p s p' s' → MemberStep t p s p' s'

end Members

/-! ## Calls on several stacks -/

/-- The calls a client can make. -/
inductive Call (Obj T : Type) where
  | on (o : Obj) (op : Op T)
  | swap (call : SwapCall Obj)
  | moveConstruct (this rhs : Obj)

/-- The control points of one thread. -/
inductive Pc (Obj T : Type) where
  | idle
  | on (o : Obj) (p : Loc T)
  | swap (p : SwapPc Obj)
  | lockMove (this rhs : Obj)
  | move (this rhs : Obj)
  | unlockMove (this rhs : Obj)
  | constructed (this : Obj)

section System

variable {Obj Tid T : Type}

/-- The operands of a call of `swap`. -/
def operands : SwapCall Obj → List Obj
  | .member this other => [this, other]
  | .friend lhs rhs => [lhs, rhs]

/-- The result of a call that is about to return. -/
def Pc.result : Pc Obj T → Option (Outcome T)
  | .on _ (.returning r) => some r
  | .swap .returning => some (.of .unit)
  | _ => none

/-- The label of a step: a call, a return, or nothing visible. -/
abbrev Lab (Obj T : Type) : Type := Option (Event (Call Obj T) (Outcome T))

variable [DecidableEq Obj]

/-- Writing the members of one stack. -/
def System.setStack (s : System Obj Tid T) (o : Obj) (S : Shared Tid T) : System Obj Tid T :=
  { s with stack := Function.update s.stack o S }

/-- Writing how far the lifetime of one stack has come. -/
def System.setLife (s : System Obj Tid T) (o : Obj) (l : Lifetime Tid) : System Obj Tid T :=
  { s with life := Function.update s.life o l }

variable [DecidableEq Tid]

/-- `ts_stack(ts_stack&& rhs)`: the container of a stack that was moved from is empty.
SRCLINE: threadsafe_stack.h:42-47 -/
inductive ConstructStep (t : Tid) :
    Pc Obj T → System Obj Tid T → Pc Obj T → System Obj Tid T → Prop
  | lock {s : System Obj Tid T} {this rhs : Obj} : (s.stack rhs).mMut = none →
      ConstructStep t (.lockMove this rhs) s (.move this rhs)
        (s.setStack rhs { s.stack rhs with mMut := some t })
  | move {s : System Obj Tid T} {this rhs : Obj} :
      ConstructStep t (.move this rhs) s (.unlockMove this rhs)
        ((s.setStack rhs { s.stack rhs with mStack := [] }).setStack this
          ⟨none, [], false, (s.stack rhs).mStack⟩)
  | unlock {s : System Obj Tid T} {this rhs : Obj} :
      ConstructStep t (.unlockMove this rhs) s (.constructed this)
        (s.setStack rhs { s.stack rhs with mMut := none })

/-- The steps of one thread. Calls are made on stacks that are alive, and a stack is
constructed in storage that holds none. -/
inductive SystemStep (t : Tid) :
    Pc Obj T → System Obj Tid T → Lab Obj T → Pc Obj T → System Obj Tid T → Prop
  | callOn {s : System Obj Tid T} (o : Obj) (op : Op T) : s.life o = .alive →
      SystemStep t .idle s (some (.call (.on o op))) (.on o (entry op)) s
  | callSwap {s : System Obj Tid T} (call : SwapCall Obj) :
      (∀ o ∈ operands call, s.life o = .alive) →
      SystemStep t .idle s (some (.call (.swap call))) (.swap call.entry) s
  | callMove {s : System Obj Tid T} {this rhs : Obj} :
      s.life rhs = .alive → s.life this = .storage →
      SystemStep t .idle s (some (.call (.moveConstruct this rhs))) (.lockMove this rhs)
        (s.setLife this (.constructing t))
  | member {s : System Obj Tid T} {o : Obj} {p p' : Loc T} {S : Shared Tid T} :
      MemberStep t p (s.stack o) p' S →
      SystemStep t (.on o p) s none (.on o p') (s.setStack o S)
  | swap {s : System Obj Tid T} {p p' : SwapPc Obj} {f : Obj → Shared Tid T} :
      p ≠ .returning → SwapStep t p s.stack none p' f →
      SystemStep t (.swap p) s none (.swap p') { s with stack := f }
  | construct {s s' : System Obj Tid T} {p p' : Pc Obj T} :
      ConstructStep t p s p' s' → SystemStep t p s none p' s'
  | ret {s : System Obj Tid T} {p : Pc Obj T} {r : Outcome T} : p.result = some r →
      SystemStep t p s (some (.ret r)) .idle s
  | retMove {s : System Obj Tid T} {this : Obj} :
      SystemStep t (.constructed this) s (some (.ret (.of .unit))) .idle
        (s.setLife this .alive)

omit [DecidableEq Obj] [DecidableEq Tid] in
/-- The stacks `o` with `init o = some st` have been constructed, with the elements `st`,
and every thread is idle.
SRCLINE: threadsafe_stack.h:32-39 -/
def start (Tid : Type) (init : Obj → Option (List T)) :
    Config Tid (Pc Obj T) (System Obj Tid T) :=
  ⟨fun _ => .idle, fun o => ⟨none, [], false, (init o).getD []⟩,
    fun o => if (init o).isSome then .alive else .storage⟩

end System

end UbuntuProjects.TsStackSystem
