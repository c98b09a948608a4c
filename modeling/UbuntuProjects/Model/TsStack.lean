import UbuntuProjects.Model.TsQueue

/-!
# `ts_stack`: a stack under one mutex

The model of `ts_adv::ts_stack` (threadsafe_stack.h): a mutex, a condition variable, the
interrupt flag and the elements. The pops and the pushes are the families of `ts_queue`
(`Take`, `Notify`), with the same statuses and results.

Everything that reads or writes the elements or the flag does so under `m_mut`, so what a
member does between two steps of the mutex or of the condition variable is one step: the
test of the predicate together with the removal that follows it, or a whole push. The
notifications of the pushes come after the mutex is released, those of `stop_waitings`
before.

An element operation may throw (label `popThrew`, `pushThrew`): a pop keeps the elements it
has already moved out and leaves the others, and a push of a range keeps the elements it
has already pushed.
-/

set_option autoImplicit false

namespace UbuntuProjects.TsStack

open TsQueue (PopStatus Notify Wait Amount Take)

/-! ## The state -/

/-- The members of the stack. The mutex is the thread that owns it; `m_cb` is the list of
the threads parked in it that nobody has notified; `m_stack` has its top in front.
SRCLINE: threadsafe_stack.h:24-27 -/
structure Shared (Tid T : Type) where
  mMut : Option Tid
  mCb : List Tid
  mInterruptWaiting : Bool
  mStack : List T

/-! ## The operations -/

/-- The calls a client can make. -/
inductive Op (T : Type) where
  | emplace (v : T) (n : Notify)
  | pushRange (vs : List T) (n : Notify)
  | take (k : Take)
  | tryLockAndPop
  | clear
  | empty
  | notify (n : Notify)
  | stopWaitings

section Members

variable {T : Type}

def Op.push (v : T) : Op T := .emplace v .none
def Op.emplaceAndNotifyOne (v : T) : Op T := .emplace v .one
def Op.emplaceAndNotifyAll (v : T) : Op T := .emplace v .all
def Op.pushAndNotifyOne (v : T) : Op T := .emplace v .one
def Op.pushAndNotifyAll (v : T) : Op T := .emplace v .all
def Op.pushRangeAndNotifyOne (vs : List T) : Op T := .pushRange vs .one
def Op.pushRangeAndNotifyAll (vs : List T) : Op T := .pushRange vs .all
def Op.pop : Op T := .take ⟨.never, .one⟩
def Op.popN (count : ℤ) : Op T := .take ⟨.never, .many count⟩
def Op.waitAndPop : Op T := .take ⟨.forever, .one⟩
def Op.waitAndPopN (count : ℤ) : Op T := .take ⟨.forever, .many count⟩
def Op.waitForAndPop : Op T := .take ⟨.timed, .one⟩
def Op.waitForAndPopN (count : ℤ) : Op T := .take ⟨.timed, .many count⟩
def Op.waitUntilAndPop : Op T := .take ⟨.timed, .one⟩
def Op.waitUntilAndPopN (count : ℤ) : Op T := .take ⟨.timed, .many count⟩

end Members

/-- How a call ends: with a result, or with an exception. -/
inductive Outcome (T : Type) where
  | of (r : TsQueue.Res T)
  | threw

section Elements

variable {T : Type}

/-- `pop_unprotected`: the element moved to `ret`, and what is left.
SRCLINE: threadsafe_stack.h:56-59 -/
def popUnprotected : List T → List T × List T
  | [] => ([], [])
  | v :: st => ([v], st)

/-- `pop_n_unprotected`: the elements written through `out`, and what is left.
SRCLINE: threadsafe_stack.h:68-81 -/
def popNUnprotected : ℤ → List T → List T × List T
  | _, [] => ([], [])
  | count, v :: st =>
    if count = 0 then ([], v :: st)
    else (v :: (popNUnprotected (count - 1) st).1, (popNUnprotected (count - 1) st).2)

/-- The removal of a pop. -/
def remove : Amount → List T → List T × List T
  | .one, st => popUnprotected st
  | .many count, st => popNUnprotected count st

/-- What a pop does once it has locked `m_mut`: return with the elements left, or wait. -/
inductive Decision (T : Type) where
  | leave (r : TsQueue.Res T) (rest : List T)
  | wait

/-- The body of a pop under `m_mut`; `last` marks the test of the predicate after a timeout.
SRCLINE: threadsafe_stack.h:61-66, 83-220 -/
def popBody (k : Take) (last interrupt : Bool) (st : List T) : Decision T :=
  match k.wait with
  | .never =>
    if k.amount = .one ∧ st.isEmpty = true then .leave (k.result .empty []) st
    else .leave (k.result .ready (remove k.amount st).1) (remove k.amount st).2
  | _ =>
    if interrupt = true then .leave (k.result .interrupted []) st
    else if st.isEmpty = true then
      if last = true then .leave (k.result .timeout []) st else .wait
    else .leave (k.result .ready (remove k.amount st).1) (remove k.amount st).2

end Elements

/-! ## Control points -/

/-- The control points of one thread. -/
inductive Pc (T : Type) where
  | idle
  | returning (r : Outcome T)
  /-- before locking `m_mut` in a push of the elements `vs` -/
  | lockPush (vs : List T) (n : Notify)
  | push (vs : List T) (n : Notify)
  | unlockPush (vs : List T) (n : Notify)
  /-- before a notification; `vs` are the elements pushed by this call -/
  | notify (vs : List T) (n : Notify)
  | lockPop (k : Take)
  | tryLock
  /-- under `m_mut` at the test of a pop; `notified` marks a thread that was woken by a
  notification -/
  | test (k : Take) (last notified : Bool)
  /-- the predicate was false: about to park in `m_cb`, still holding `m_mut` -/
  | park (k : Take)
  | parked (k : Take)
  | relock (k : Take) (last notified : Bool)
  | unlock (r : Outcome T)
  | lockClear
  | clear
  | lockEmpty
  | empty
  | lockStop
  | setStop
  | notifyStop

section Transitions

variable {T : Type}

/-- After a push: notify if the called variant does. -/
def afterPush (vs : List T) : Notify → Pc T
  | .none => .returning (.of .unit)
  | n => .notify vs n

/-- The first control point of a call. -/
def Op.entry : Op T → Pc T
  | .emplace v n => .lockPush [v] n
  | .pushRange vs n => .lockPush vs n
  | .take k => .lockPop k
  | .tryLockAndPop => .tryLock
  | .clear => .lockClear
  | .empty => .lockEmpty
  | .notify n => .notify [] n
  | .stopWaitings => .lockStop

end Transitions

/-! ## Steps -/

/-- The label of a step: a call, a return, an exception from an element operation of a pop
or of a push, or nothing visible. -/
inductive Lab (T : Type) where
  | step
  | call (op : Op T)
  | ret (r : Outcome T)
  | popThrew
  | pushThrew

section Steps

variable {Tid T : Type} [DecidableEq Tid]

/-- Calls, returns, notifications and `stop_waitings`.
SRCLINE: threadsafe_stack.h:224-234 -/
inductive ClientStep (t : Tid) :
    Pc T → Shared Tid T → Lab T → Pc T → Shared Tid T → Prop
  | call (s : Shared Tid T) (op : Op T) : ClientStep t .idle s (.call op) op.entry s
  | ret (s : Shared Tid T) (r : Outcome T) : ClientStep t (.returning r) s (.ret r) .idle s
  | notifyOne {s : Shared Tid T} {vs : List T} {u : Tid} : u ∈ s.mCb →
      ClientStep t (.notify vs .one) s .step (.returning (.of .unit))
        { s with mCb := s.mCb.erase u }
  | notifyNobody {s : Shared Tid T} {vs : List T} : s.mCb = [] →
      ClientStep t (.notify vs .one) s .step (.returning (.of .unit)) s
  | notifyAll {s : Shared Tid T} {vs : List T} :
      ClientStep t (.notify vs .all) s .step (.returning (.of .unit)) { s with mCb := [] }
  | lockStop {s : Shared Tid T} : s.mMut = none →
      ClientStep t .lockStop s .step .setStop { s with mMut := some t }
  | setStop {s : Shared Tid T} :
      ClientStep t .setStop s .step .notifyStop { s with mInterruptWaiting := true }
  | notifyStop {s : Shared Tid T} :
      ClientStep t .notifyStop s .step (.unlock (.of .unit)) { s with mCb := [] }

/-- The pushes, `clear` and `empty`. The elements of a range are pushed one after another,
and the one that throws ends the loop.
SRCLINE: threadsafe_stack.h:235-311 -/
inductive StackStep (t : Tid) :
    Pc T → Shared Tid T → Lab T → Pc T → Shared Tid T → Prop
  | lockPush {s : Shared Tid T} {vs : List T} {n : Notify} : s.mMut = none →
      StackStep t (.lockPush vs n) s .step (.push vs n) { s with mMut := some t }
  | push {s : Shared Tid T} {vs : List T} {n : Notify} :
      StackStep t (.push vs n) s .step (.unlockPush vs n)
        { s with mStack := vs.reverse ++ s.mStack }
  | pushThrew {s : Shared Tid T} {vs done rest : List T} {v : T} {n : Notify} :
      vs = done ++ v :: rest →
      StackStep t (.push vs n) s .pushThrew (.unlock .threw)
        { s with mStack := done.reverse ++ s.mStack }
  | unlockPush {s : Shared Tid T} {vs : List T} {n : Notify} :
      StackStep t (.unlockPush vs n) s .step (afterPush vs n) { s with mMut := none }
  | lockClear {s : Shared Tid T} : s.mMut = none →
      StackStep t .lockClear s .step .clear { s with mMut := some t }
  | clear {s : Shared Tid T} :
      StackStep t .clear s .step (.unlock (.of .unit)) { s with mStack := [] }
  | lockEmpty {s : Shared Tid T} : s.mMut = none →
      StackStep t .lockEmpty s .step .empty { s with mMut := some t }
  | empty {s : Shared Tid T} :
      StackStep t .empty s .step (.unlock (.of (.bool s.mStack.isEmpty))) s
  | unlock {s : Shared Tid T} {r : Outcome T} :
      StackStep t (.unlock r) s .step (.returning r) { s with mMut := none }

/-- The pops, waiting or not. A thread in `m_cb` may time out, wake spuriously or have been
notified, and `std::try_to_lock` may fail at any time.
SRCLINE: threadsafe_stack.h:56-220 -/
inductive PopStep (t : Tid) :
    Pc T → Shared Tid T → Lab T → Pc T → Shared Tid T → Prop
  | lockPop {s : Shared Tid T} {k : Take} : s.mMut = none →
      PopStep t (.lockPop k) s .step (.test k false false) { s with mMut := some t }
  | tryLock {s : Shared Tid T} : s.mMut = none →
      PopStep t .tryLock s .step (.test ⟨.never, .one⟩ false false) { s with mMut := some t }
  | tryLockFail {s : Shared Tid T} :
      PopStep t .tryLock s .step (.returning (.of (.status .tryLockFail none))) s
  | leave {s : Shared Tid T} {k : Take} {last notified : Bool} {r : TsQueue.Res T}
      {rest : List T} :
      popBody k last s.mInterruptWaiting s.mStack = .leave r rest →
      PopStep t (.test k last notified) s .step (.unlock (.of r)) { s with mStack := rest }
  /-- moving the element after the first `done` ones throws -/
  | popThrew {s : Shared Tid T} {k : Take} {last notified : Bool} {r : TsQueue.Res T}
      {rest done left : List T} {v : T} :
      popBody k last s.mInterruptWaiting s.mStack = .leave r rest →
      s.mStack = done ++ v :: (left ++ rest) →
      PopStep t (.test k last notified) s .popThrew (.unlock .threw)
        { s with mStack := v :: (left ++ rest) }
  | wait {s : Shared Tid T} {k : Take} {last notified : Bool} :
      popBody k last s.mInterruptWaiting s.mStack = .wait →
      PopStep t (.test k last notified) s .step (.park k) s
  /-- `m_cb.wait` releases `m_mut` and parks the thread in one step -/
  | park {s : Shared Tid T} {k : Take} :
      PopStep t (.park k) s .step (.parked k) { s with mMut := none, mCb := t :: s.mCb }
  | notified {s : Shared Tid T} {k : Take} : t ∉ s.mCb →
      PopStep t (.parked k) s .step (.relock k false true) s
  | spurious {s : Shared Tid T} {k : Take} : t ∈ s.mCb →
      PopStep t (.parked k) s .step (.relock k false false) { s with mCb := s.mCb.erase t }
  /-- a thread that was notified may still find its time over -/
  | timeout {s : Shared Tid T} {k : Take} : k.wait = .timed →
      PopStep t (.parked k) s .step (.relock k true (decide (t ∉ s.mCb)))
        { s with mCb := s.mCb.erase t }
  | relock {s : Shared Tid T} {k : Take} {last notified : Bool} : s.mMut = none →
      PopStep t (.relock k last notified) s .step (.test k last notified)
        { s with mMut := some t }

/-- The steps of one thread. -/
inductive TsStackStep (t : Tid) :
    Pc T → Shared Tid T → Lab T → Pc T → Shared Tid T → Prop
  | client {p p' : Pc T} {s s' : Shared Tid T} {l : Lab T} :
      ClientStep t p s l p' s' → TsStackStep t p s l p' s'
  | stack {p p' : Pc T} {s s' : Shared Tid T} {l : Lab T} :
      StackStep t p s l p' s' → TsStackStep t p s l p' s'
  | pop {p p' : Pc T} {s s' : Shared Tid T} {l : Lab T} :
      PopStep t p s l p' s' → TsStackStep t p s l p' s'

end Steps

/-- A stack just constructed, and every thread is idle.
SRCLINE: threadsafe_stack.h:32-33 -/
def start (Tid T : Type) : Concurrency.Config Tid (Pc T) (Shared Tid T) :=
  ⟨fun _ => .idle, ⟨none, [], false, []⟩⟩

end UbuntuProjects.TsStack
