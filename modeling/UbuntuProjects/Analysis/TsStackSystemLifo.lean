import UbuntuProjects.Analysis.TsStackSystemLocks
import UbuntuProjects.Analysis.TsQueueFifo

/-!
# Several `ts_stack` objects as lists

The object that a `ts_stack` implements is a list with a flag (`lifo`): pushes put elements
in front, pops take them from there, `stop_waitings` raises the flag. A push that throws has
put a part of its elements in front, a pop that throws has lost those it had already moved
out. `lifos` is a family of such objects, whose lists can be exchanged and moved.

A member function takes effect at the end of its section: with the last element that it
pushes or removes, or with the exception. Until then the elements of the stack are ahead of
the list (`Tracked`).
-/

set_option autoImplicit false

namespace UbuntuProjects.TsStackSystem

open Concurrency
open TsQueue (Notify Take Amount quota)
open TsStack (Shared Op Outcome SwapCall SwapPc)

variable {Obj Tid T : Type}

/-! ## The sequential objects -/

/-- The call pushes the elements `vs`. -/
def Pushes : Op T → List T → Prop
  | .emplace v _, vs => vs = [v]
  | .pushRange ws _, vs => vs = ws
  | _, _ => False

/-- The call is the pop `k`. -/
def Pops : Op T → Take → Prop
  | .take k', k => k = k'
  | .tryLockAndPop, k => k = ⟨.never, .one⟩
  | _, _ => False

/-- A pop removes what it finds: a waiting one must not be interrupted and needs an element,
and so does one that takes a single element. -/
def Removes (k : Take) (st : List T) (interrupt : Bool) : Prop :=
  (k.wait ≠ .never → interrupt = false ∧ st ≠ []) ∧ (k.amount = .one → st ≠ [])

/-- The calls of one thread after another. -/
inductive LifoStep : List T × Bool → Op T → Outcome T → List T × Bool → Prop
  | push {st vs : List T} {i : Bool} {op : Op T} : Pushes op vs →
      LifoStep (st, i) op (.of .unit) (vs.reverse ++ st, i)
  | pushThrew {st vs : List T} {i : Bool} {op : Op T} {m : ℕ} : Pushes op vs → m < vs.length →
      LifoStep (st, i) op .threw ((vs.take m).reverse ++ st, i)
  | pop {st : List T} {i : Bool} {op : Op T} {k : Take} : Pops op k → Removes k st i →
      LifoStep (st, i) op (.of (k.result .ready (st.take (k.amount.quota st.length))))
        (st.drop (k.amount.quota st.length), i)
  | popThrew {st : List T} {i : Bool} {op : Op T} {k : Take} {m : ℕ} : Pops op k →
      Removes k st i → m < k.amount.quota st.length → LifoStep (st, i) op .threw (st.drop m, i)
  | popEmpty {i : Bool} {op : Op T} {k : Take} : Pops op k → k.wait = .never → k.amount = .one →
      LifoStep ([], i) op (.of (k.result .empty [])) ([], i)
  | interrupted {st : List T} {op : Op T} {k : Take} : Pops op k → k.wait ≠ .never →
      LifoStep (st, true) op (.of (k.result .interrupted [])) (st, true)
  | timeout {op : Op T} {k : Take} : Pops op k → k.wait = .timed →
      LifoStep ([], false) op (.of (k.result .timeout [])) ([], false)
  | tryLockFail {st : List T} {i : Bool} :
      LifoStep (st, i) .tryLockAndPop (.of (.status .tryLockFail none)) (st, i)
  | clear {st : List T} {i : Bool} : LifoStep (st, i) .clear (.of .unit) ([], i)
  | empty {st : List T} {i : Bool} : LifoStep (st, i) .empty (.of (.bool st.isEmpty)) (st, i)
  | notify {st : List T} {i : Bool} {n : Notify} : LifoStep (st, i) (.notify n) (.of .unit) (st, i)
  | stop {st : List T} {i : Bool} : LifoStep (st, i) .stopWaitings (.of .unit) (st, true)

/-- A list with a flag. -/
def lifo (T : Type) : SeqSpec (Op T) (Outcome T) (List T × Bool) where
  init := ([], false)
  step := LifoStep

/-- The two stacks of a call of `swap`. -/
def Swaps : SwapCall Obj → Obj → Obj → Prop
  | .member this other, x, y => x = this ∧ y = other
  | .friend lhs rhs, x, y => x = lhs ∧ y = rhs

/-- The calls on several stacks, one after another. A swap leaves the flags where they are,
and a stack that is constructed starts with its flag down. -/
inductive StacksStep [DecidableEq Obj] :
    (Obj → Option (List T × Bool)) → Call Obj T → Outcome T → (Obj → Option (List T × Bool)) → Prop
  | on {σ : Obj → Option (List T × Bool)} {o : Obj} {op : Op T} {r : Outcome T}
      {a a' : List T × Bool} : σ o = some a → LifoStep a op r a' →
      StacksStep σ (.on o op) r (Function.update σ o (some a'))
  | swap {σ : Obj → Option (List T × Bool)} {call : SwapCall Obj} {x y : Obj}
      {a b : List T × Bool} : Swaps call x y → σ x = some a → σ y = some b →
      StacksStep σ (.swap call) (.of .unit)
        (Function.update (Function.update σ x (some (b.1, a.2))) y (some (a.1, b.2)))
  | moveConstruct {σ : Obj → Option (List T × Bool)} {this rhs : Obj} {a : List T × Bool} :
      σ this = none → σ rhs = some a →
      StacksStep σ (.moveConstruct this rhs) (.of .unit)
        (Function.update (Function.update σ rhs (some ([], a.2))) this (some (a.1, false)))

/-- A family of lists with flags. -/
def lifos [DecidableEq Obj] (init : Obj → Option (List T)) :
    SeqSpec (Call Obj T) (Outcome T) (Obj → Option (List T × Bool)) where
  init o := (init o).map fun st => (st, false)
  step := StacksStep

/-! ## A thread at a stack and a thread at a list -/

/-- The control points at which the elements may be ahead of the list. -/
def Loc.dirty : Loc T → Prop
  | .pushLoop _ _ => True
  | .popLoop _ _ _ => True
  | .popTop _ _ _ => True
  | .popDrop _ _ _ => True
  | .clearLoop _ => True
  | _ => False

/-- A pop that has moved out the elements `out` of the list, while `ws` are still there. -/
structure Popping (a : List T × Bool) (ws : List T) (k : Take) (count : ℤ) (out : List T)
    (x : Status (Op T) (Outcome T)) : Prop where
  pending : ∃ op, x = .pending op ∧ Pops op k
  removes : Removes k a.1 a.2
  elements : out ++ ws = a.1
  quota : k.amount.quota a.1.length = out.length + quota count ws.length

/-- A thread at a stack with the elements `ws` and its status at the list `a`. -/
def Tracked (a : List T × Bool) (ws : List T) : Loc T → Status (Op T) (Outcome T) → Prop
  | .returning r, x => x = .done r
  | .lockPush vs _, x => ∃ op, x = .pending op ∧ Pushes op vs
  | .pushLoop rest _, x => ∃ op pushed, x = .pending op ∧ Pushes op (pushed ++ rest) ∧
      ws = pushed.reverse ++ a.1
  | .unlockPush _, x => x = .done (.of .unit)
  | .notify n, x => x = .done (.of .unit) ∨ x = .pending (.notify n)
  | .lockPop k, x => x = .pending (.take k)
  | .tryLock, x => x = .pending .tryLockAndPop
  | .testEmpty k, x => (∃ op, x = .pending op ∧ Pops op k) ∧ k = ⟨.never, .one⟩
  | .testInterrupt k, x => x = .pending (.take k) ∧ k.wait ≠ .never
  | .predicate k last, x => x = .pending (.take k) ∧ k.wait ≠ .never ∧
      (last = true → k.wait = .timed)
  | .park k, x => x = .pending (.take k) ∧ k.wait ≠ .never
  | .parked k, x => x = .pending (.take k) ∧ k.wait ≠ .never
  | .relock k last, x => x = .pending (.take k) ∧ k.wait ≠ .never ∧ (last = true → k.wait = .timed)
  | .retestInterrupt k, x => x = .pending (.take k) ∧ k.wait ≠ .never ∧ (a.2 = false → a.1 ≠ [])
  | .popLoop k count out, x => Popping a ws k count out x ∧ k.amount ≠ .one
  | .popTop k count out, x => Popping a ws k count out x ∧ ws ≠ [] ∧
      count ≠ 0 ∧ (k.amount = .one → count = 1)
  | .popDrop k count out, x => ∃ v ws' out', ws = v :: ws' ∧ out = out' ++ [v] ∧
      Popping a ws k count out' x ∧ count ≠ 0 ∧ (k.amount = .one → count = 1)
  | .unlock r, x => x = .done r
  | .lockClear, x => x = .pending .clear
  | .clearSize, x => x = .pending .clear
  | .clearLoop sz, x => x = .pending .clear ∧ ws.length = sz
  | .lockEmpty, x => x = .pending .empty
  | .empty, x => x = .pending .empty
  | .lockStop, x => x = .pending .stopWaitings
  | .setStop, x => x = .pending .stopWaitings
  | .notifyStop, x => x = .done (.of .unit)

/-- A step of a thread inside a member function is followed by at most one move at the
list. -/
def Follows (a : List T × Bool) (p : Loc T) (x : Status (Op T) (Outcome T)) (p' : Loc T)
    (s' : Shared Tid T) : Prop :=
  ∃ v x' a', AtomicMove (lifo T) a x v a' x' ∧ v.bind Point.event = none ∧
    Tracked a' s'.mStack p' x' ∧ s'.mInterruptWaiting = a'.2 ∧
    (p.holding → ¬p'.dirty → s'.mStack = a'.1) ∧ (p.holding ∨ a' = a)

section Steps

variable {a : List T × Bool} {ws : List T} {s s' : Shared Tid T} {t : Tid} {p p' : Loc T}
  {x : Status (Op T) (Outcome T)} {k : Take}

/-- INTERNAL: outside the sections a thread does not depend on the list and the elements. -/
theorem Tracked.frame {a' : List T × Bool} {ws' : List T} (h : Tracked a ws p x)
    (hp : ¬p.holding) : Tracked a' ws' p x := by
  cases p with
  | pushLoop | retestInterrupt | popLoop | popTop | popDrop | clearLoop => exact absurd trivial hp
  | _ => exact h

theorem Loc.holding_of_dirty (h : p.dirty) : p.holding := by
  cases p with
  | pushLoop | popLoop | popTop | popDrop | clearLoop => trivial
  | _ => exact h.elim

/-- INTERNAL: nothing happens at the list. -/
theorem follows_stutter (hx : Tracked a s'.mStack p' x) (hint : s'.mInterruptWaiting = a.2)
    (hclean : p.holding → ¬p'.dirty → s'.mStack = a.1) : Follows a p x p' s' :=
  ⟨none, x, a, .stutter _ _, rfl, hx, hint, hclean, .inr rfl⟩

/-- INTERNAL: a call takes effect. -/
theorem follows_lin {a' : List T × Bool} {op : Op T} {r : Outcome T} (hx : x = .pending op)
    (hop : LifoStep a op r a') (hx' : Tracked a' s'.mStack p' (.done r))
    (hint : s'.mInterruptWaiting = a'.2) (hst : s'.mStack = a'.1) (hp : p.holding ∨ a' = a) :
    Follows a p x p' s' := by
  subst hx
  exact ⟨some (.lin op r), .done r, a', .lin hop, rfl, hx', hint, fun _ _ => hst, hp⟩

/-- INTERNAL: a call takes effect outside the sections and leaves the list as it is. -/
theorem follows_outside {op : Op T} {r : Outcome T} (hp : ¬p.holding) (hx : x = .pending op)
    (hop : LifoStep a op r a) (hint : s'.mInterruptWaiting = a.2) :
    Follows a p x (.returning r) s' := by
  subst hx
  exact ⟨some (.lin op r), .done r, a, .lin hop, rfl, rfl, hint, fun h => absurd h hp, .inr rfl⟩

theorem tracked_entry (op : Op T) : Tracked a ws (entry op) (.pending op) := by
  cases op with
  | emplace v n => exact ⟨_, rfl, rfl⟩
  | pushRange vs n => exact ⟨_, rfl, rfl⟩
  | notify n => exact .inr rfl
  | take | tryLockAndPop | clear | empty | stopWaitings => rfl

/-! ## Removals -/

/-- INTERNAL: what a removal that is at its end has taken. -/
theorem Popping.taken {count : ℤ} {out : List T} (h : Popping a ws k count out x)
    (hq : TsQueue.quota count ws.length = 0) :
    out = a.1.take (k.amount.quota a.1.length) ∧ ws = a.1.drop (k.amount.quota a.1.length) := by
  have hlen : k.amount.quota a.1.length = out.length := by
    rw [h.quota, hq, Nat.add_zero]
  rw [hlen, ← h.elements]
  exact ⟨List.take_left.symm, List.drop_left.symm⟩

/-- INTERNAL: a removal that has come to its end takes effect. -/
theorem follows_taken {count : ℤ} {out : List T} (h : Popping a s'.mStack k count out x)
    (hq : quota count s'.mStack.length = 0) (hint : s'.mInterruptWaiting = a.2)
    (hp : p.holding) : Follows a p x (.unlock (.of (k.result .ready out))) s' := by
  obtain ⟨op, hx, hop⟩ := h.pending
  obtain ⟨hout, hws⟩ := h.taken hq
  refine follows_lin hx (.pop hop h.removes) ?_ hint hws (.inl hp)
  rw [← hout]
  rfl

/-- INTERNAL: the start of a removal. -/
theorem tracked_popStart (hx : ∃ op, x = .pending op ∧ Pops op k) (hr : Removes k a.1 a.2) :
    Tracked a a.1 (popStart k) x := by
  obtain ⟨wait, amount⟩ := k
  cases amount with
  | one =>
    exact ⟨⟨hx, hr, rfl, by simp [Amount.quota]⟩, hr.2 rfl, one_ne_zero, fun _ => rfl⟩
  | many count => exact ⟨⟨hx, hr, rfl, by simp [Amount.quota]⟩, nofun⟩

theorem dirty_popStart : (popStart k : Loc T).dirty := by
  unfold popStart
  split <;> trivial

/-- INTERNAL: one more element has been moved out and removed. -/
theorem Popping.next {v : T} {count : ℤ} {out : List T} (h : Popping a (v :: ws) k count out x)
    (hcount : count ≠ 0) : Popping a ws k (count - 1) (out ++ [v]) x where
  pending := h.pending
  removes := h.removes
  elements := by rw [← h.elements, List.append_assoc, List.singleton_append]
  quota := by
    rw [h.quota, List.length_cons, TsQueue.quota_pred hcount, List.length_append,
      List.length_singleton]
    omega

/-- INTERNAL: a removal that goes on takes more than it has. -/
theorem Popping.lt {count : ℤ} {out : List T} (h : Popping a ws k count out x) (hcount : count ≠ 0)
    (hws : ws ≠ []) : out.length < k.amount.quota a.1.length := by
  obtain ⟨v, ws, rfl⟩ := List.exists_cons_of_ne_nil hws
  rw [h.quota, List.length_cons, TsQueue.quota_pred hcount]
  omega

theorem removeStep_follows (hint : s.mInterruptWaiting = a.2) (h : Tracked a s.mStack p x)
    (hs : RemoveStep t p s p' s') : Follows a p x p' s' := by
  cases hs with
  | @loop _ k count out =>
    unfold afterPopLoop
    split
    · rename_i hstop
      refine follows_taken h.1 ?_ hint trivial
      rcases hstop with rfl | hempty
      · exact TsQueue.quota_zero_left _
      · rw [List.isEmpty_iff.mp hempty]
        exact TsQueue.quota_zero_right _
    · rename_i hgo
      obtain ⟨hcount, hne⟩ := not_or.mp hgo
      exact follows_stutter ⟨h.1, by simpa using hne, hcount, fun hone => absurd hone h.2⟩ hint
        fun _ hd => absurd trivial hd
  | @top _ k count out st v hst =>
    obtain ⟨hpop, -, hcount⟩ := h
    exact follows_stutter ⟨v, st, out, hst, rfl, hpop, hcount⟩ hint fun _ hd => absurd trivial hd
  | @threw _ k count out st v hst =>
    obtain ⟨hpop, hne, hcount, -⟩ := h
    obtain ⟨op, hx, hop⟩ := hpop.pending
    refine follows_lin hx (.popThrew hop hpop.removes (hpop.lt hcount hne)) rfl hint ?_
      (.inl trivial)
    rw [← hpop.elements]
    exact List.drop_left.symm
  | @drop _ k count out =>
    obtain ⟨v, ws', out', hst, rfl, hpop, hcount, hone⟩ := h
    rw [hst] at hpop
    have hnext := hpop.next hcount
    unfold afterPopDrop
    cases hk : k.amount with
    | one =>
      obtain rfl := hone hk
      refine follows_taken ?_ (TsQueue.quota_zero_left _) hint trivial
      rw [hst]
      exact hnext
    | many c =>
      refine follows_stutter ⟨?_, by rw [hk]; exact nofun⟩ hint fun _ hd => absurd trivial hd
      rw [hst]
      exact hnext

/-! ## Waiting -/

/-- INTERNAL: a pop that removes nothing. -/
theorem follows_left {op : Op T} {r : Outcome T} (hx : x = .pending op) (hop : LifoStep a op r a)
    (hint : s'.mInterruptWaiting = a.2) (hst : s'.mStack = a.1) : Follows a p x (.unlock r) s' :=
  follows_lin hx hop rfl hint hst (.inr rfl)

/-- INTERNAL: the start of a removal happens at a clean stack. -/
theorem follows_popStart (hint : s'.mInterruptWaiting = a.2) (hst : s'.mStack = a.1)
    (hx : ∃ op, x = .pending op ∧ Pops op k) (hr : Removes k a.1 a.2) :
    Follows a p x (popStart k) s' := by
  refine follows_stutter ?_ hint fun _ hd => absurd dirty_popStart hd
  rw [hst]
  exact tracked_popStart hx hr

theorem afterLockPop_follows (hint : s'.mInterruptWaiting = a.2) (hst : s'.mStack = a.1)
    (hx : x = .pending (.take k)) : Follows a p x (afterLockPop k) s' := by
  unfold afterLockPop
  cases hw : k.wait with
  | never =>
    cases hk : k.amount with
    | one =>
      have hone : k = ⟨.never, .one⟩ := by
        rw [← hw, ← hk]
      exact follows_stutter ⟨⟨_, hx, rfl⟩, hone⟩ hint fun _ _ => hst
    | many c =>
      refine follows_popStart hint hst ⟨_, hx, rfl⟩ ⟨fun h => absurd hw h, fun h => ?_⟩
      rw [hk] at h
      cases h
  | forever | timed => exact follows_stutter ⟨hx, by rw [hw]; exact nofun⟩ hint fun _ _ => hst

/-- INTERNAL: the pop of one element that does not wait. -/
theorem afterTestEmpty_follows (hint : s.mInterruptWaiting = a.2) (hst : s.mStack = a.1)
    (h : Tracked a s.mStack (.testEmpty k) x) :
    Follows a (.testEmpty k) x (afterTestEmpty k s.mStack) s := by
  obtain ⟨⟨op, hx, hop⟩, rfl⟩ := h
  unfold afterTestEmpty
  split
  · rename_i hempty
    refine follows_left hx ?_ hint hst
    obtain ⟨st, i⟩ := a
    obtain rfl : st = [] := hst.symm.trans (List.isEmpty_iff.mp hempty)
    exact .popEmpty hop rfl rfl
  · rename_i hne
    refine follows_popStart hint hst ⟨op, hx, hop⟩ ⟨fun h => absurd rfl h, fun _ => ?_⟩
    rw [← hst]
    simpa using hne

/-- INTERNAL: a waiting pop that finds the flag. -/
theorem follows_interrupted (hx : x = .pending (.take k)) (hk : k.wait ≠ .never)
    (hint : s.mInterruptWaiting = a.2) (hst : s.mStack = a.1)
    (hflag : s.mInterruptWaiting = true) :
    Follows a p x (.unlock (.of (k.result .interrupted []))) s := by
  refine follows_left hx ?_ hint hst
  obtain ⟨st, i⟩ := a
  obtain rfl : i = true := hint.symm.trans hflag
  exact .interrupted rfl hk

theorem afterTestInterrupt_follows (hint : s.mInterruptWaiting = a.2) (hst : s.mStack = a.1)
    (h : Tracked a s.mStack (.testInterrupt k) x) :
    Follows a p x (afterTestInterrupt k s.mInterruptWaiting) s := by
  obtain ⟨hx, hk⟩ := h
  unfold afterTestInterrupt
  split
  · rename_i hflag
    exact follows_interrupted hx hk hint hst hflag
  · exact follows_stutter ⟨hx, hk, nofun⟩ hint fun _ _ => hst

theorem afterPredicate_follows {last : Bool} (hint : s.mInterruptWaiting = a.2)
    (hst : s.mStack = a.1) (h : Tracked a s.mStack (.predicate k last) x) :
    Follows a p x (afterPredicate k last s.mInterruptWaiting s.mStack) s := by
  obtain ⟨hx, hk, hlast⟩ := h
  unfold afterPredicate
  split
  · rename_i hpred
    refine follows_stutter ⟨hx, hk, fun hflag => ?_⟩ hint fun _ _ => hst
    rw [← hint] at hflag
    rw [← hst]
    simpa [hflag] using hpred
  · rename_i hpred
    obtain ⟨hne, hflag⟩ := not_or.mp hpred
    split
    · rename_i htime
      refine follows_left hx ?_ hint hst
      obtain ⟨st, i⟩ := a
      obtain rfl : st = [] := hst.symm.trans (by simpa using hne)
      obtain rfl : i = false := hint.symm.trans (by simpa using hflag)
      exact .timeout rfl (hlast htime)
    · exact follows_stutter ⟨hx, hk⟩ hint fun _ _ => hst

theorem afterRetest_follows (hint : s.mInterruptWaiting = a.2) (hst : s.mStack = a.1)
    (h : Tracked a s.mStack (.retestInterrupt k) x) :
    Follows a p x (afterRetest k s.mInterruptWaiting) s := by
  obtain ⟨hx, hk, hfound⟩ := h
  unfold afterRetest
  split
  · rename_i hflag
    exact follows_interrupted hx hk hint hst hflag
  · rename_i hflag
    have hfalse : a.2 = false := by
      rw [← hint]
      simpa using hflag
    exact follows_popStart hint hst ⟨_, hx, rfl⟩ ⟨fun _ => ⟨hfalse, hfound hfalse⟩,
      fun _ => hfound hfalse⟩

variable [DecidableEq Tid]

theorem waitStep_follows (hint : s.mInterruptWaiting = a.2)
    (hclean : p.holding ∨ s.mMut = none → ¬p.dirty → s.mStack = a.1)
    (h : Tracked a s.mStack p x) (hs : WaitStep t p s p' s') : Follows a p x p' s' := by
  cases hs with
  | lock hm => exact afterLockPop_follows hint (hclean (.inr hm) id) h
  | tryLock hm =>
    exact follows_stutter ⟨⟨_, h, rfl⟩, rfl⟩ hint fun _ _ => hclean (.inr hm) id
  | tryLockFail => exact follows_outside id h .tryLockFail hint
  | testEmpty => exact afterTestEmpty_follows hint (hclean (.inl trivial) id) h
  | testInterrupt => exact afterTestInterrupt_follows hint (hclean (.inl trivial) id) h
  | predicate => exact afterPredicate_follows hint (hclean (.inl trivial) id) h
  | park => exact follows_stutter h hint fun _ _ => hclean (.inl trivial) id
  | notified | spurious => exact follows_stutter ⟨h.1, h.2, nofun⟩ hint fun hp => hp.elim
  | timeout hk => exact follows_stutter ⟨h.1, h.2, fun _ => hk⟩ hint fun hp => hp.elim
  | relock hm => exact follows_stutter h hint fun _ _ => hclean (.inr hm) id
  | retest => exact afterRetest_follows hint (hclean (.inl trivial) id) h

/-! ## Pushes, notifications and the other sections -/

omit [DecidableEq Tid] in
theorem pushStep_follows (hint : s.mInterruptWaiting = a.2)
    (hclean : p.holding ∨ s.mMut = none → ¬p.dirty → s.mStack = a.1)
    (h : Tracked a s.mStack p x) (hs : PushStep t p s p' s') : Follows a p x p' s' := by
  cases hs with
  | lock hm =>
    obtain ⟨op, hx, hop⟩ := h
    exact follows_stutter ⟨op, [], hx, hop, hclean (.inr hm) id⟩ hint fun hp => hp.elim
  | @push _ v vs n =>
    obtain ⟨op, pushed, hx, hop, hst⟩ := h
    refine follows_stutter ⟨op, pushed ++ [v], hx, ?_, ?_⟩ hint fun _ hd => absurd trivial hd
    · rw [List.append_assoc, List.singleton_append]
      exact hop
    · rw [List.reverse_append, hst]
      rfl
  | @threw _ v vs n =>
    obtain ⟨op, pushed, hx, hop, hst⟩ := h
    have hlt : pushed.length < (pushed ++ v :: vs).length := by simp
    refine follows_lin hx (.pushThrew hop hlt) rfl hint ?_ (.inl trivial)
    rw [List.take_left]
    exact hst
  | @pushed _ n =>
    obtain ⟨op, pushed, hx, hop, hst⟩ := h
    rw [List.append_nil] at hop
    exact follows_lin hx (.push hop) rfl hint hst (.inl trivial)
  | @unlock _ n =>
    refine follows_stutter ?_ hint fun _ _ => hclean (.inl trivial) id
    cases n with
    | none => exact h
    | one | all => exact .inl h

omit [DecidableEq Tid] in
/-- INTERNAL: after its notification a call returns. -/
theorem follows_notify {n : Notify} (hint : s'.mInterruptWaiting = a.2)
    (h : Tracked a ws (.notify n) x) :
    Follows a (.notify n) x (.returning (.of .unit)) s' := by
  rcases h with hx | hx
  · exact follows_stutter hx hint fun hp => hp.elim
  · exact follows_outside id hx .notify hint

theorem notifyStep_follows (hint : s.mInterruptWaiting = a.2)
    (hclean : p.holding ∨ s.mMut = none → ¬p.dirty → s.mStack = a.1)
    (h : Tracked a s.mStack p x) (hs : NotifyStep t p s p' s') : Follows a p x p' s' := by
  cases hs with
  | none | one | nobody | all => exact follows_notify hint h
  | lockStop hm => exact follows_stutter h hint fun _ _ => hclean (.inr hm) id
  | setStop => exact follows_lin h .stop rfl rfl (hclean (.inl trivial) id) (.inl trivial)
  | notifyStop => exact follows_stutter h hint fun _ _ => hclean (.inl trivial) id

omit [DecidableEq Tid] in
theorem sectionStep_follows (hint : s.mInterruptWaiting = a.2)
    (hclean : p.holding ∨ s.mMut = none → ¬p.dirty → s.mStack = a.1)
    (h : Tracked a s.mStack p x) (hs : SectionStep t p s p' s') : Follows a p x p' s' := by
  cases hs with
  | lockClear hm | lockEmpty hm => exact follows_stutter h hint fun _ _ => hclean (.inr hm) id
  | clearSize => exact follows_stutter ⟨h, rfl⟩ hint fun _ hd => absurd trivial hd
  | clearPop =>
    refine follows_stutter ⟨h.1, ?_⟩ hint fun _ hd => absurd trivial hd
    rw [List.length_tail, h.2, Nat.add_sub_cancel]
  | cleared =>
    have hnil : s.mStack = [] := List.eq_nil_of_length_eq_zero h.2
    exact follows_lin h.1 .clear rfl hint hnil (.inl trivial)
  | empty =>
    have hst := hclean (.inl trivial) id
    refine follows_left h ?_ hint hst
    rw [hst]
    exact .empty
  | unlock => exact follows_stutter h hint fun _ _ => hclean (.inl trivial) id

theorem memberStep_follows (hint : s.mInterruptWaiting = a.2)
    (hclean : p.holding ∨ s.mMut = none → ¬p.dirty → s.mStack = a.1)
    (h : Tracked a s.mStack p x) (hs : MemberStep t p s p' s') : Follows a p x p' s' := by
  cases hs with
  | push hs => exact pushStep_follows hint hclean h hs
  | notify hs => exact notifyStep_follows hint hclean h hs
  | wait hs => exact waitStep_follows hint hclean h hs
  | remove hs => exact removeStep_follows hint h hs
  | «section» hs => exact sectionStep_follows hint hclean h hs

end Steps

end UbuntuProjects.TsStackSystem
