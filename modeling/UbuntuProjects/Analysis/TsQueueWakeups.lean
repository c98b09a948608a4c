import UbuntuProjects.Analysis.TsQueueContents

/-!
# Lost wake-ups in `ts_queue`

Waiters call `wait_and_pop` and pushers push and notify. A waiter reads the tail under
`m_tail_mut` and parks later, holding only `m_head_mut`, while a push and its
notification need neither of the two between: a notification that falls between the
reading and the parking wakes nobody (`stranded_reachable`).

Without such a notification no waiter is left behind (`not_stranded_run`). While some
thread is parked or about to park, every element of the queue is accounted for by a
thread of its own that will still look at the queue or wake another one up (`Attentive`):
a push adds such a thread together with its element, a pop removes both, and a
notification that reaches a parked thread hands the duty over to it.
-/

set_option autoImplicit false

namespace UbuntuProjects.TsQueue

open Concurrency

variable {Tid T : Type}

/-- The calls of the waiters and of the pushers, all of which notify. -/
def Op.ofWaiters (op : Op Unit T) : Prop :=
  op = .waitAndPop () ∨ (∃ v, op = .emplaceAndNotifyOne () v) ∨
    (∃ v, op = .emplaceAndNotifyAll () v) ∨ (∃ v, op = .pushAndNotifyOne () v) ∨
    ∃ v, op = .pushAndNotifyAll () v

/-- The control points of these calls. -/
def Pc.ofWaiters : Pc Unit T → Prop
  | .idle => True
  | .returning _ => True
  | .makeNode _ _ n => n ≠ .none
  | .lockTail _ _ sub n => n ≠ .none ∧ ∃ a, sub = .node a
  | .constructData _ _ sub n => n ≠ .none ∧ ∃ a, sub = .node a
  | .setInitialized _ sub n => n ≠ .none ∧ ∃ a, sub = .node a
  | .linkNext _ sub n => n ≠ .none ∧ ∃ a, sub = .node a
  | .moveTail _ sub n => n ≠ .none ∧ ∃ a, sub = .node a
  | .unlockTail _ n => n ≠ .none
  | .notify _ n => n ≠ .none
  | .lockHead _ k => k = ⟨.forever, .one⟩
  | .testInterrupt _ k => k = ⟨.forever, .one⟩
  | .lockTailMut _ k last => k = ⟨.forever, .one⟩ ∧ last = false
  | .readTail _ k last => k = ⟨.forever, .one⟩ ∧ last = false
  | .unlockTailMut _ k last _ => k = ⟨.forever, .one⟩ ∧ last = false
  | .testEmpty _ k last _ => k = ⟨.forever, .one⟩ ∧ last = false
  | .park _ k => k = ⟨.forever, .one⟩
  | .parked _ k => k = ⟨.forever, .one⟩
  | .relock _ k last => k = ⟨.forever, .one⟩ ∧ last = false
  | .popData _ k _ _ _ => k = ⟨.forever, .one⟩
  | .popNode _ k _ _ _ => k = ⟨.forever, .one⟩
  | .unlockHead _ _ => True
  | _ => False

/-- The waiter has read the tail, found the queue empty, and is going to park. -/
def Pc.foundEmpty (Q' : Queue Tid) : Pc Unit T → Prop
  | .unlockTailMut _ _ _ possibleTail => Q'.mHead = some possibleTail
  | .testEmpty _ _ _ possibleTail => Q'.mHead = some possibleTail
  | .park _ _ => True
  | _ => False

/-- All calls but those of parked waiters have returned, nobody has notified these
waiters, and the queue is not empty. -/
def Stranded (c : Config Tid (Pc Unit T) (Shared Tid Unit T)) : Prop :=
  ∃ Q', c.sh.queues () = some Q' ∧ Q'.mHead ≠ Q'.mTail ∧ (∃ t, t ∈ Q'.mCb) ∧
    ∀ t, c.pc t = .idle ∨ t ∈ Q'.mCb ∧ ∃ k, c.pc t = .parked () k

/-- Thread `t` notifies while the queue is not empty and nobody is parked, but some
waiter is going to park. -/
def LosesNotification (c : Config Tid (Pc Unit T) (Shared Tid Unit T)) (t : Tid) : Prop :=
  ∃ n Q', c.pc t = .notify () n ∧ c.sh.queues () = some Q' ∧ Q'.mCb = [] ∧
    Q'.mHead ≠ Q'.mTail ∧ ∃ u, (c.pc u).foundEmpty Q'

/-- Only the calls of waiters and pushers are made. -/
def WaitersOnly (_ : Config Tid (Pc Unit T) (Shared Tid Unit T)) (e : Tid × Lab Unit T) : Prop :=
  ∀ op, e.2 = some (.call op) → op.ofWaiters

/-- Moreover no notification is lost. -/
def Careful (c : Config Tid (Pc Unit T) (Shared Tid Unit T)) (e : Tid × Lab Unit T) : Prop :=
  WaitersOnly c e ∧ ¬LosesNotification c e.1

/-! ## The lost wake-up -/

/-- A waiter finds the queue empty; an element is pushed and its notification wakes
nobody; the waiter parks. -/
theorem stranded_reachable :
    ∃ (c : Config Bool (Pc Unit ℕ) (Shared Bool Unit ℕ)) (tr : List (Bool × Lab Unit ℕ)),
      Run QueueStep WaitersOnly (oneQueue Bool ℕ) tr c ∧ Stranded c := by
  have hquiet : ∀ (c : Config Bool (Pc Unit ℕ) (Shared Bool Unit ℕ)) (t : Bool),
      WaitersOnly c (t, none) := fun _ _ _ h => by cases h
  have hret : ∀ (c : Config Bool (Pc Unit ℕ) (Shared Bool Unit ℕ)) (t : Bool) (r : Res ℕ),
      WaitersOnly c (t, some (.ret r)) := fun _ _ _ _ h => by cases h
  have hcall : ∀ (c : Config Bool (Pc Unit ℕ) (Shared Bool Unit ℕ)) (t : Bool) (op : Op Unit ℕ),
      op.ofWaiters → WaitersOnly c (t, some (.call op)) := by
    intro _ _ op hop op' h
    obtain rfl : op = op' := by simpa using h
    exact hop
  have h₁ := (Run.nil : Run QueueStep WaitersOnly (oneQueue Bool ℕ) [] _).snoc
    true (hcall _ _ (.waitAndPop ()) (.inl rfl)) (.client (.call _ _))
  have h₂ := h₁.snoc true (hquiet _ _) (.pop (.lockHead rfl rfl))
  have h₃ := h₂.snoc true (hquiet _ _) (.pop (.testInterrupt rfl))
  have h₄ := h₃.snoc true (hquiet _ _) (.pop (.lockTailMut rfl rfl))
  have h₅ := h₄.snoc true (hquiet _ _) (.pop (.readTail rfl rfl))
  have h₆ := h₅.snoc true (hquiet _ _) (.pop (.unlockTailMut rfl))
  have h₇ := h₆.snoc true (hquiet _ _) (.pop (.testEmpty rfl))
  -- the waiter is going to park; now the whole push goes by
  have k₁ := h₇.snoc false (hcall _ _ (.pushAndNotifyOne () 7) (.inr (.inl ⟨7, rfl⟩)))
    (.client (.call _ _))
  have k₂ := k₁.snoc false (hquiet _ _) (.push (.makeNode (a := 1) rfl))
  have k₃ := k₂.snoc false (hquiet _ _) (.push (.lockTail rfl rfl))
  have k₄ := k₃.snoc false (hquiet _ _) (.push (.constructData rfl rfl rfl))
  have k₅ := k₄.snoc false (hquiet _ _) (.push (.setInitialized rfl rfl rfl))
  have k₆ := k₅.snoc false (hquiet _ _) (.push (.linkNext rfl rfl rfl))
  have k₇ := k₆.snoc false (hquiet _ _) (.push (.moveTail rfl rfl rfl))
  have k₈ := k₇.snoc false (hquiet _ _) (.push (.unlockTail rfl))
  have k₉ := k₈.snoc false (hquiet _ _) (.client (.notifyNobody rfl rfl))
  have k₁₀ := k₉.snoc false (hret _ _ _) (.client (.ret _ _))
  have h₈ := k₁₀.snoc true (hquiet _ _) (.pop (.park rfl))
  refine ⟨_, _, h₈, _, rfl, by decide, ⟨true, by decide⟩, fun t => ?_⟩
  cases t with
  | false => exact .inl rfl
  | true => exact .inr ⟨by decide, _, rfl⟩

/-! ## Who will still look at the queue -/

/-- Thread `t` will read the tail, or remove an element, or notify after its push. -/
def Pc.attentive (Q' : Queue Tid) (t : Tid) : Pc Unit T → Prop
  | .unlockTail _ _ => True
  | .notify _ _ => True
  | .lockHead _ _ => True
  | .testInterrupt _ _ => True
  | .lockTailMut _ _ _ => True
  | .readTail _ _ _ => True
  | .unlockTailMut _ _ _ possibleTail => Q'.mHead ≠ some possibleTail
  | .testEmpty _ _ _ possibleTail => Q'.mHead ≠ some possibleTail
  | .parked _ _ => t ∉ Q'.mCb
  | .relock _ _ _ => True
  | .popData _ _ _ _ _ => True
  | .popNode _ _ _ _ _ => True
  | _ => False

/-- Some thread is parked or going to park. -/
def SomeoneWaits (Q' : Queue Tid) (pc : Tid → Pc Unit T) : Prop :=
  ∃ u, u ∈ Q'.mCb ∨ (pc u).foundEmpty Q'

/-- There are `n` different attentive threads. -/
def Attended (Q' : Queue Tid) (pc : Tid → Pc Unit T) (n : ℕ) : Prop :=
  ∃ l : List Tid, l.Nodup ∧ (∀ u ∈ l, (pc u).attentive Q' u) ∧ n ≤ l.length

/-- The parked threads, and the attentive threads they may count on. -/
structure Attendance (c : Config Tid (Pc Unit T) (Shared Tid Unit T)) : Prop where
  nodup : ∀ Q', c.sh.queues () = some Q' → Q'.mCb.Nodup
  parked : ∀ Q', c.sh.queues () = some Q' → ∀ u ∈ Q'.mCb, ∃ k, c.pc u = .parked () k
  attended : ∀ Q' vs, c.sh.queues () = some Q' → Contents c.sh () vs →
    SomeoneWaits Q' c.pc → Attended Q' c.pc vs.length

/-- What holds in every configuration in which only waiters and pushers have run and no
notification was lost. -/
structure WaitersInv (c : Config Tid (Pc Unit T) (Shared Tid Unit T)) : Prop where
  pcs : ∀ t, (c.pc t).ofWaiters
  interrupt : NoInterrupt c.sh
  attendance : Attendance c

/-- With nobody attentive and somebody parked the queue is empty. -/
theorem Attendance.not_stranded {own : Owners Tid Unit}
    {c : Config Tid (Pc Unit T) (Shared Tid Unit T)} (h : Attendance c)
    (hI : SharedInv own c.sh) : ¬Stranded c := by
  rintro ⟨Q', hQ, hne, ⟨t, ht⟩, hall⟩
  obtain ⟨vs, hvs⟩ := hI.contents hQ
  obtain ⟨l, -, hl, hlen⟩ := h.attended Q' vs hQ hvs ⟨t, .inl ht⟩
  have hnil : l = [] := by
    refine List.eq_nil_iff_forall_not_mem.mpr fun u hu => ?_
    have hat := hl u hu
    rcases hall u with hidle | ⟨hmem, k, hparked⟩
    · rw [hidle] at hat
      exact hat
    · rw [hparked] at hat
      exact hat hmem
  refine hne ((hvs.nil_iff hQ).mp (List.eq_nil_of_length_eq_zero ?_))
  simpa [hnil] using hlen

section Threads

variable {Q₁ Q₂ : Queue Tid} {u : Tid} {p : Pc Unit T}

theorem Pc.attentive.congr (h : p.attentive Q₁ u) (hcb : u ∈ Q₂.mCb → u ∈ Q₁.mCb)
    (hhd : p.inHead () → Q₂.mHead = Q₁.mHead) : p.attentive Q₂ u := by
  cases p with
  | unlockTailMut | testEmpty =>
    rw [Pc.attentive, hhd rfl]
    exact h
  | parked => exact fun hm => h (hcb hm)
  | _ => exact h

theorem Pc.foundEmpty.congr (h : p.foundEmpty Q₂) (hhd : p.inHead () → Q₂.mHead = Q₁.mHead) :
    p.foundEmpty Q₁ := by
  cases p with
  | unlockTailMut | testEmpty => exact (hhd rfl).symm.trans h
  | _ => exact h

end Threads

section Steps

variable [DecidableEq Tid] {own : Owners Tid Unit} {s s' : Shared Tid Unit T} {t : Tid}
  {l : Lab Unit T} {p p' : Pc Unit T} {pc : Tid → Pc Unit T} {Q₁ Q₂ : Queue Tid} {n : Notify}

omit [DecidableEq Tid] in
/-- INTERNAL: what `wait_and_pop` does after its test when nobody interrupts it. -/
theorem afterTest_waiter {q : Unit} {pt : Addr} (hint : Q₁.mInterruptWaiting = false) :
    (afterTest q ⟨.forever, .one⟩ false pt Q₁ : Pc Unit T) =
      if Q₁.mHead = some pt then .park q ⟨.forever, .one⟩
      else .popData q ⟨.forever, .one⟩ pt 1 [] := by
  by_cases h : Q₁.mHead = some pt <;> simp [afterTest, popStart, hint, h]

/-- INTERNAL: the waiters and pushers stay among their control points. -/
theorem queueStep_ofWaiters (hcall : ∀ op, l = some (.call op) → op.ofWaiters)
    (hp : p.ofWaiters) (hint : NoInterrupt s) (h : QueueStep t p s l p' s') : p'.ofWaiters := by
  cases h with
  | client h =>
    cases h with
    | call s op =>
      rcases hcall op rfl with rfl | ⟨v, rfl⟩ | ⟨v, rfl⟩ | ⟨v, rfl⟩ | ⟨v, rfl⟩
      · rfl
      all_goals exact Notify.noConfusion
    | ret | notifyNobody | notifyOne | notifyAll => trivial
    | create | lockStop | setStop | unlockStop => exact hp.elim
  | push h =>
    cases h with
    | makeNode => exact ⟨hp, _, rfl⟩
    | lockTail | constructData | setInitialized | linkNext => exact hp
    | moveTail | moveTailRange => exact hp.1
    | @unlockTail _ _ n =>
      cases n with
      | none => exact absurd rfl hp
      | one | all => exact hp
    | makeSubNil | makeSub | copyRange | copyRangeNil => exact hp.elim
  | pop h =>
    cases h with
    | lockHead =>
      obtain rfl : _ = (⟨.forever, .one⟩ : Take) := hp
      rfl
    | testInterrupt hQ =>
      rw [hint _ _ hQ]
      exact ⟨hp, rfl⟩
    | lockTailMut | unlockTailMut | readTail | park | relock | popData => exact hp
    | testEmpty hQ =>
      obtain ⟨rfl, rfl⟩ := hp
      rw [afterTest_waiter (hint _ _ hQ)]
      split <;> rfl
    | notified | spurious => exact ⟨hp, rfl⟩
    | timeout hQ hk =>
      obtain rfl : _ = (⟨.forever, .one⟩ : Take) := hp
      cases hk
    | popLoop => exact hp.elim
    | popNode =>
      obtain rfl : _ = (⟨.forever, .one⟩ : Take) := hp
      trivial
    | unlockHead => trivial
  | locked h => cases h <;> exact hp.elim

/-- INTERNAL: the other threads stay attentive. -/
theorem attentive_others {u : Tid} (h : (pc u).attentive Q₁ u) (hu : u ≠ t)
    (hhd : ∀ u, u ≠ t → (pc u).inHead () → Q₂.mHead = Q₁.mHead)
    (hcb : ∀ u, u ≠ t → u ∈ Q₂.mCb → u ∈ Q₁.mCb) :
    (Function.update pc t p' u).attentive Q₂ u := by
  rw [Function.update_of_ne hu]
  exact h.congr (hcb u hu) (hhd u hu)

/-- INTERNAL: who waits after the step has waited before, or it is the thread that took
the step. -/
theorem SomeoneWaits.before (h : SomeoneWaits Q₂ (Function.update pc t p'))
    (hhd : ∀ u, u ≠ t → (pc u).inHead () → Q₂.mHead = Q₁.mHead)
    (hcb : ∀ u, u ≠ t → u ∈ Q₂.mCb → u ∈ Q₁.mCb) :
    SomeoneWaits Q₁ pc ∨ t ∈ Q₂.mCb ∨ p'.foundEmpty Q₂ := by
  obtain ⟨u, hu⟩ := h
  by_cases hut : u = t
  · subst hut
    exact .inr (by simpa using hu)
  · rw [Function.update_of_ne hut] at hu
    exact .inl ⟨u, hu.imp (hcb u hut) fun h => h.congr (hhd u hut)⟩

omit [DecidableEq Tid] in
/-- INTERNAL: only parked threads are in the condition variable. -/
theorem Attendance.notMem (h : Attendance ⟨pc, s⟩) (hQ₁ : s.queues () = some Q₁)
    (hp : ∀ k, pc t ≠ .parked () k) : t ∉ Q₁.mCb := fun hm => by
  obtain ⟨k, hk⟩ := h.parked Q₁ hQ₁ t hm
  exact hp k hk

/-- INTERNAL: the threads that were parked are so after a step of another one. -/
theorem Attendance.parked_others (h : Attendance ⟨pc, s⟩) (hQ₁ : s.queues () = some Q₁) {u : Tid}
    (hnot : t ∉ Q₁.mCb) (hu : u ∈ Q₁.mCb) : ∃ k, Function.update pc t p' u = .parked () k := by
  have hut : u ≠ t := fun hut => hnot (hut ▸ hu)
  simpa [Function.update_of_ne hut] using h.parked Q₁ hQ₁ u hu

/-- INTERNAL: a step that keeps the values and makes nobody inattentive. -/
theorem Attendance.keep (h : Attendance ⟨pc, s⟩) (hI : SharedInv own s) (hpc : pc t = p)
    (hQ₁ : s.queues () = some Q₁) (hQ₂ : s'.queues () = some Q₂) (hhd : Q₂.mHead = Q₁.mHead)
    (hnodup : Q₂.mCb.Nodup) (hcb : ∀ u, u ≠ t → u ∈ Q₂.mCb → u ∈ Q₁.mCb)
    (hself : t ∈ Q₂.mCb → (∃ k, p' = .parked () k) ∧ p.foundEmpty Q₁)
    (hc : ∀ vs, Contents s () vs → Contents s' () vs)
    (hwt : p'.foundEmpty Q₂ → p.foundEmpty Q₁)
    (hat : p.attentive Q₁ t → p'.attentive Q₂ t) :
    Attendance ⟨Function.update pc t p', s'⟩ where
  nodup Q' hQ' := by
    obtain rfl : Q₂ = Q' := by simpa using hQ₂.symm.trans hQ'
    exact hnodup
  parked Q' hQ' u hu := by
    obtain rfl : Q₂ = Q' := by simpa using hQ₂.symm.trans hQ'
    by_cases hut : u = t
    · subst hut
      simpa using (hself hu).1
    · simpa [Function.update_of_ne hut] using h.parked Q₁ hQ₁ u (hcb u hut hu)
  attended Q' vs hQ' hvs hw := by
    obtain rfl : Q₂ = Q' := by simpa using hQ₂.symm.trans hQ'
    obtain ⟨vs', hvs'⟩ := hI.contents hQ₁
    obtain rfl := hvs.unique (hc vs' hvs')
    have hw' : SomeoneWaits Q₁ pc := by
      rcases hw.before (fun _ _ _ => hhd) hcb with hw | hmem | hf
      · exact hw
      · exact ⟨t, .inr (hpc ▸ (hself hmem).2)⟩
      · exact ⟨t, .inr (hpc ▸ hwt hf)⟩
    obtain ⟨l, hnd, hl, hlen⟩ := h.attended Q₁ vs hQ₁ hvs' hw'
    refine ⟨l, hnd, fun u hu => ?_, hlen⟩
    by_cases hut : u = t
    · subst hut
      simpa using hat (hpc ▸ hl u hu)
    · exact attentive_others (hl u hu) hut (fun _ _ _ => hhd) hcb

/-- INTERNAL: the common case, in which a thread that is not parked leaves the condition
variable alone. -/
theorem Attendance.same (h : Attendance ⟨pc, s⟩) (hI : SharedInv own s) (hpc : pc t = p)
    (hQ₁ : s.queues () = some Q₁) (hQ₂ : s'.queues () = some Q₂) (hhd : Q₂.mHead = Q₁.mHead)
    (hcb : Q₂.mCb = Q₁.mCb) (hp : ∀ k, p ≠ .parked () k)
    (hc : ∀ vs, Contents s () vs → Contents s' () vs)
    (hwt : p'.foundEmpty Q₂ → p.foundEmpty Q₁)
    (hat : p.attentive Q₁ t → p'.attentive Q₂ t) :
    Attendance ⟨Function.update pc t p', s'⟩ := by
  refine h.keep hI hpc hQ₁ hQ₂ hhd (hcb ▸ h.nodup Q₁ hQ₁) (fun u _ hu => hcb ▸ hu) (fun hm => ?_)
    hc hwt hat
  exact absurd (hcb ▸ hm) (h.notMem hQ₁ fun k => hpc ▸ hp k)

/-- INTERNAL: such a step that acquires or releases a mutex. -/
theorem Attendance.sync (h : Attendance ⟨pc, s⟩) (hI : SharedInv own s) (hpc : pc t = p) {q : Unit}
    (hQ : s.queues q = some Q₁) (hhd : Q₂.mHead = Q₁.mHead) (htl : Q₂.mTail = Q₁.mTail)
    (hcb : Q₂.mCb = Q₁.mCb) (hp : ∀ k, p ≠ .parked () k)
    (hwt : p'.foundEmpty Q₂ → p.foundEmpty Q₁)
    (hat : p.attentive Q₁ t → p'.attentive Q₂ t) :
    Attendance ⟨Function.update pc t p', s.setQueue q Q₂⟩ :=
  h.same hI hpc hQ (Shared.setQueue_self s q Q₂) hhd hcb hp (fun _ hvs => hvs.setQueue hQ hhd htl)
    hwt hat

/-- INTERNAL: a notification that reaches the parked thread `u`: the duty of the
notifying thread passes to `u`. -/
theorem Attendance.handOver (h : Attendance ⟨pc, s⟩) (hI : SharedInv own s)
    (hpc : pc t = .notify () n) (hQ₁ : s.queues () = some Q₁) {cb : List Tid} {u : Tid}
    (hu : u ∈ Q₁.mCb) (hnodup : cb.Nodup) (hsub : ∀ v ∈ cb, v ∈ Q₁.mCb) (hnu : u ∉ cb) :
    Attendance ⟨Function.update pc t (.returning .unit), s.setQueue () { Q₁ with mCb := cb }⟩ := by
  have hnot : t ∉ Q₁.mCb := h.notMem hQ₁ (by simp [hpc])
  refine ⟨fun Q' hQ' => ?_, fun Q' hQ' v hv => ?_, fun Q' vs hQ' hvs hw => ?_⟩ <;>
    obtain rfl : { Q₁ with mCb := cb } = Q' := by simpa using hQ'
  · exact hnodup
  · exact h.parked_others hQ₁ hnot (hsub v hv)
  · obtain ⟨vs', hvs'⟩ := hI.contents hQ₁
    obtain rfl := hvs.unique (hvs'.setQueue hQ₁ rfl rfl)
    have hbefore : SomeoneWaits Q₁ pc ∨ _ := hw.before (fun _ _ _ => rfl) fun v _ hv => hsub v hv
    have hw' : SomeoneWaits Q₁ pc := by
      rcases hbefore with hw | hm | hf
      · exact hw
      · exact absurd (hsub t hm) hnot
      · simp [Pc.foundEmpty] at hf
    obtain ⟨l, hnd, hl, hlen⟩ := h.attended Q₁ vs hQ₁ hvs' hw'
    obtain ⟨k, hk⟩ : ∃ k, pc u = .parked () k := h.parked Q₁ hQ₁ u hu
    have hul : u ∉ l := fun hm => by
      have hat : (pc u).attentive Q₁ u := hl u hm
      rw [hk] at hat
      exact hat hu
    have hut : u ≠ t := fun hut => hnot (hut ▸ hu)
    refine ⟨u :: l.erase t, ?_, fun v hv => ?_, ?_⟩
    · exact List.nodup_cons.mpr ⟨fun hm => hul (List.mem_of_mem_erase hm), hnd.erase t⟩
    · rcases List.mem_cons.mp hv with rfl | hv
      · simpa [Function.update_of_ne hut, hk, Pc.attentive] using hnu
      · obtain ⟨hvt, hv⟩ := (hnd.mem_erase_iff).mp hv
        exact attentive_others (hl v hv) hvt (fun _ _ _ => rfl) fun w _ hw => hsub w hw
    · have := List.le_length_erase (a := t) (l := l)
      simp only [List.length_cons]
      omega

/-- INTERNAL: a notification that reaches nobody. It is not lost, so nobody is going to
park or the queue is empty. -/
theorem Attendance.nobody (h : Attendance ⟨pc, s⟩) (hpc : pc t = .notify () n)
    (hQ₁ : s.queues () = some Q₁) (hlost : ¬LosesNotification ⟨pc, s⟩ t) (hcb : Q₁.mCb = []) :
    Attendance ⟨Function.update pc t (.returning .unit), s⟩ := by
  refine ⟨h.nodup, fun Q' hQ' v hv => ?_, fun Q' vs hQ' hvs hw => ?_⟩ <;>
    obtain rfl : Q₁ = Q' := by simpa using hQ₁.symm.trans hQ'
  · simp [hcb] at hv
  · have hw' : SomeoneWaits Q₁ pc := by
      rcases hw.before (fun _ _ _ => rfl) (fun _ _ hv => hv) with hw | hm | hf
      · exact hw
      · simp [hcb] at hm
      · exact hf.elim
    obtain ⟨u, hu⟩ := hw'
    have hempty : Q₁.mHead = Q₁.mTail := by
      by_contra hne
      exact hlost ⟨n, Q₁, hpc, hQ₁, hcb, hne, u, hu.resolve_left (by simp [hcb])⟩
    obtain rfl := (hvs.nil_iff hQ₁).mpr hempty
    exact ⟨[], by simp, by simp, by simp⟩

theorem clientStep_attendance (h : Attendance ⟨pc, s⟩) (hI : SharedInv own s) (hpc : pc t = p)
    (hp : p.ofWaiters) (hQ₁ : s.queues () = some Q₁) (hlost : ¬LosesNotification ⟨pc, s⟩ t)
    (hs : ClientStep t p s l p' s') : Attendance ⟨Function.update pc t p', s'⟩ := by
  cases hs with
  | call s op =>
    refine h.same hI hpc hQ₁ hQ₁ rfl rfl (by simp) (fun _ hc => hc) (fun hf => ?_) False.elim
    cases op <;> exact hf.elim
  | ret => exact h.same hI hpc hQ₁ hQ₁ rfl rfl (by simp) (fun _ hc => hc) (fun hf => hf) id
  | notifyOne hQ hu =>
    have hnd := h.nodup _ hQ
    exact h.handOver hI hpc hQ hu (hnd.erase _) (fun _ hv => List.mem_of_mem_erase hv)
      fun hm => (hnd.mem_erase_iff.mp hm).1 rfl
  | notifyNobody hQ he => exact h.nobody hpc hQ hlost he
  | @notifyAll _ _ Q' hQ =>
    by_cases he : Q'.mCb = []
    · have hsame : s.setQueue () { Q' with mCb := [] } = s := by
        rw [← he, Shared.setQueue, Function.update_eq_self_iff.mpr hQ.symm]
      rw [hsame]
      exact h.nobody hpc hQ hlost he
    · obtain ⟨u, hu⟩ := List.exists_mem_of_ne_nil _ he
      exact h.handOver hI hpc hQ hu List.nodup_nil (by simp) (by simp)
  | create | lockStop | setStop | unlockStop => exact hp.elim

omit [DecidableEq Tid] in
/-- INTERNAL: a single private node is a chain without further nodes. -/
theorem SubRep.eq_nil {a : Addr} {ys : List Addr} (h : SubRep own s.heap t a a ys) : ys = [] := by
  cases ys with
  | nil => rfl
  | cons b ys =>
    obtain ⟨rfl, -⟩ := Path.cons_iff.mp h.path
    have hnd := h.nodup
    simp at hnd

/-- INTERNAL: moving `m_tail` adds one element and makes the pusher attentive. -/
theorem Attendance.append (h : Attendance ⟨pc, s⟩) (hI : SharedInv own s) {sub : Sub}
    (hpc : pc t = .moveTail () sub n) {a : Addr} (hsub : sub = .node a)
    (has : assertion own t (.moveTail () sub n : Pc Unit T) s) (hQ₁ : s.queues () = some Q₁) :
    Attendance ⟨Function.update pc t (.unlockTail () n),
      s.setQueue () { Q₁ with mTail := some a }⟩ := by
  subst hsub
  obtain ⟨v, htail, ys, hrep⟩ := has
  obtain rfl := hrep.eq_nil
  obtain ⟨tl, htl⟩ := hI.tail_isSome hQ₁
  have hnd := (htail.of_queue hQ₁).2 tl htl
  have hnot : t ∉ Q₁.mCb := h.notMem hQ₁ (by simp [hpc])
  refine ⟨fun Q' hQ' => ?_, fun Q' hQ' u hu => ?_, fun Q' vs hQ' hvs hw => ?_⟩ <;>
    obtain rfl : { Q₁ with mTail := some a } = Q' := by simpa using hQ'
  · exact h.nodup Q₁ hQ₁
  · exact h.parked_others hQ₁ hnot hu
  · obtain ⟨vs', hvs'⟩ := hI.contents hQ₁
    obtain rfl := hvs.unique (contents_append hvs' hI hQ₁ htl hnd hrep .nil)
    have hbefore : SomeoneWaits Q₁ pc ∨ _ := hw.before (fun _ _ _ => rfl) fun _ _ hu => hu
    have hw' : SomeoneWaits Q₁ pc := by
      rcases hbefore with hw | hm | hf
      · exact hw
      · exact absurd hm hnot
      · simp [Pc.foundEmpty] at hf
    obtain ⟨l, hnd, hl, hlen⟩ := h.attended Q₁ vs' hQ₁ hvs' hw'
    have htl : t ∉ l := fun hm => by
      have hat : (pc t).attentive Q₁ t := hl t hm
      rw [hpc] at hat
      exact hat
    refine ⟨t :: l, List.nodup_cons.mpr ⟨htl, hnd⟩, fun u hu => ?_, ?_⟩
    · rcases List.mem_cons.mp hu with rfl | hu
      · simp [Pc.attentive]
      · exact attentive_others (hl u hu) (fun hut => htl (hut ▸ hu)) (fun _ _ _ => rfl)
          fun _ _ hm => hm
    · simpa using hlen

theorem pushStep_attendance (h : Attendance ⟨pc, s⟩) (hI : SharedInv own s) (hpc : pc t = p)
    (has : assertion own t p s) (hp : p.ofWaiters) (hQ₁ : s.queues () = some Q₁)
    (hs : PushStep t p s p' s') : Attendance ⟨Function.update pc t p', s'⟩ := by
  by_cases hmove : ∃ sub n, p = .moveTail () sub n
  · obtain ⟨sub, n, rfl⟩ := hmove
    obtain ⟨-, a, rfl⟩ := id hp
    cases hs with
    | moveTail hQ htl hnd =>
      obtain ⟨v, htail, -⟩ := id has
      obtain rfl : _ = _ := by simpa using hnd.symm.trans ((htail.of_queue hQ).2 _ htl)
      exact h.append hI hpc rfl has hQ
  · have hc : ∀ vs, Contents s () vs → Contents s' () vs := fun vs hvs =>
      pushStep_contents hI has hs (fun _ sub n hEq => hmove ⟨sub, n, hEq⟩) hvs
    cases hs with
    | makeNode | constructData | setInitialized | linkNext =>
      exact h.same hI hpc hQ₁ hQ₁ rfl rfl (by simp) hc id id
    | lockTail hQ => exact h.sync hI hpc hQ rfl rfl rfl (by simp) id id
    | @unlockTail _ _ n _ hQ =>
      cases n with
      | none => exact absurd rfl hp
      | one | all => exact h.sync hI hpc hQ rfl rfl rfl (by simp) id id
    | moveTail | moveTailRange => exact absurd ⟨_, _, rfl⟩ hmove
    | makeSubNil | makeSub | copyRange | copyRangeNil => exact hp.elim

omit [DecidableEq Tid] in
/-- INTERNAL: a waiter between locking and unlocking `m_head_mut` owns it. -/
theorem holdsHead_of_inHead {u : Tid} (has : assertion own u p s) (hp : p.ofWaiters)
    (hin : p.inHead ()) : HoldsHead s u () := by
  cases p with
  | testInterrupt | lockTailMut | park | unlockHead => exact has
  | readTail => exact has.1
  | unlockTailMut => exact has.1.holdsHead
  | testEmpty => exact IsAhead.holdsHead has
  | popData | popNode => exact (IsStrictlyAhead.isAhead has).holdsHead
  | _ => first | exact hin.elim | exact hp.elim

/-- INTERNAL: deleting the first node removes one element and at most one attentive
thread. -/
theorem Attendance.unlink (h : Attendance ⟨pc, s⟩) (hI : SharedInv own s)
    (hpcs : ∀ u, (pc u).ofWaiters) (has : ∀ u, assertion own u (pc u) s)
    (hQ₁ : s.queues () = some Q₁) {k : Take} {pt hd : Addr} {count : ℤ} {out : List T} {nd : Node T}
    {r : Res T} (hpc : pc t = .popNode () k pt count out) (hhd : Q₁.mHead = some hd)
    (hnd : s.heap hd = some nd) :
    Attendance ⟨Function.update pc t (.unlockHead () r),
      (s.freeNode hd).setQueue () { Q₁ with mHead := nd.mNext }⟩ := by
  have hst : IsStrictlyAhead own s t () pt := by simpa [hpc, assertion] using has t
  obtain ⟨hm, hne, -⟩ := hst.unlink hQ₁ hhd hnd
  have hnot : t ∉ Q₁.mCb := h.notMem hQ₁ (by simp [hpc])
  -- no other thread is between locking and unlocking `m_head_mut`
  have hother : ∀ u, u ≠ t → (pc u).inHead () →
      ({ Q₁ with mHead := nd.mNext } : Queue Tid).mHead = Q₁.mHead := fun u hu hin =>
    absurd (by simpa using ((holdsHead_of_inHead (has u) (hpcs u) hin).of_queue hQ₁).symm.trans hm)
      hu
  refine ⟨fun Q' hQ' => ?_, fun Q' hQ' u hu => ?_, fun Q' vs hQ' hvs hw => ?_⟩ <;>
    obtain rfl : { Q₁ with mHead := nd.mNext } = Q' := by simpa using hQ'
  · exact h.nodup Q₁ hQ₁
  · exact h.parked_others hQ₁ hnot hu
  · obtain ⟨vs₁, hvs₁⟩ := hI.contents hQ₁
    obtain ⟨v, vs₂, rfl, -, hvs₂⟩ := contents_unlink hvs₁ hI hQ₁ hhd hne hnd
    obtain rfl := hvs.unique hvs₂
    have hbefore : SomeoneWaits Q₁ pc ∨ _ := hw.before hother fun _ _ hu => hu
    have hw' : SomeoneWaits Q₁ pc := by
      rcases hbefore with hw | hm | hf
      · exact hw
      · exact absurd hm hnot
      · simp [Pc.foundEmpty] at hf
    obtain ⟨l, hndl, hl, hlen⟩ := h.attended Q₁ _ hQ₁ hvs₁ hw'
    refine ⟨l.erase t, hndl.erase t, fun u hu => ?_, ?_⟩
    · obtain ⟨hut, hu⟩ := (hndl.mem_erase_iff).mp hu
      exact attentive_others (hl u hu) hut hother fun _ _ hm => hm
    · have := List.le_length_erase (a := t) (l := l)
      simp only [List.length_cons] at hlen
      omega

/-- INTERNAL: a waiter reads the tail. If the queue is empty nobody has to be attentive. -/
theorem Attendance.readTail (h : Attendance ⟨pc, s⟩) (hI : SharedInv own s) {k : Take} {last : Bool}
    (hpc : pc t = .readTail () k last) (hQ₁ : s.queues () = some Q₁) {pt : Addr}
    (hpt : Q₁.mTail = some pt) :
    Attendance ⟨Function.update pc t (.unlockTailMut () k last pt), s⟩ := by
  by_cases hempty : Q₁.mHead = some pt
  · have hnot : t ∉ Q₁.mCb := h.notMem hQ₁ (by simp [hpc])
    refine ⟨h.nodup, fun Q' hQ' u hu => ?_, fun Q' vs hQ' hvs hw => ?_⟩ <;>
      obtain rfl : Q₁ = Q' := by simpa using hQ₁.symm.trans hQ'
    · exact h.parked_others hQ₁ hnot hu
    · obtain rfl := (hvs.nil_iff hQ₁).mpr (hempty.trans hpt.symm)
      exact ⟨[], by simp, by simp, by simp⟩
  · exact h.same hI hpc hQ₁ hQ₁ rfl rfl (by simp) (fun _ hvs => hvs) (fun hf => hempty hf)
      fun _ => hempty

theorem popStep_attendance (h : Attendance ⟨pc, s⟩) (hI : SharedInv own s) (hpc : pc t = p)
    (hpcs : ∀ u, (pc u).ofWaiters) (has : ∀ u, assertion own u (pc u) s)
    (hint : NoInterrupt s) (hQ₁ : s.queues () = some Q₁) (hs : PopStep t p s p' s') :
    Attendance ⟨Function.update pc t p', s'⟩ := by
  have hp : p.ofWaiters := hpc ▸ hpcs t
  have hnot : (∀ k, p ≠ .parked () k) → t ∉ Q₁.mCb := fun hne =>
    h.notMem hQ₁ fun k => hpc ▸ hne k
  cases hs with
  | lockHead hQ =>
    obtain rfl : _ = (⟨.forever, .one⟩ : Take) := hp
    exact h.sync hI hpc hQ rfl rfl rfl (by simp) id id
  | testInterrupt hQ =>
    rw [hint _ _ hQ]
    exact h.same hI hpc hQ hQ rfl rfl (by simp) (fun _ hvs => hvs) id id
  | lockTailMut hQ | unlockTailMut hQ | relock hQ | unlockHead hQ =>
    exact h.sync hI hpc hQ rfl rfl rfl (by simp) id id
  | readTail hQ hpt => exact h.readTail hI hpc hQ hpt
  | @testEmpty _ _ k last Q' pt hQ =>
    obtain ⟨rfl, rfl⟩ := hp
    rw [afterTest_waiter (hint _ _ hQ)]
    by_cases hempty : Q'.mHead = some pt
    · rw [if_pos hempty]
      exact h.same hI hpc hQ hQ rfl rfl (by simp) (fun _ hvs => hvs) (fun _ => hempty)
        fun hat => hat hempty
    · rw [if_neg hempty]
      exact h.same hI hpc hQ hQ rfl rfl (by simp) (fun _ hvs => hvs) False.elim fun _ => trivial
  | @park _ _ k Q' hQ =>
    obtain rfl : Q₁ = Q' := by simpa using hQ₁.symm.trans hQ
    exact h.keep hI hpc hQ (Shared.setQueue_self ..) rfl
      (List.nodup_cons.mpr ⟨hnot (by simp), h.nodup _ hQ⟩)
      (fun u hu hm => (List.mem_cons.mp hm).resolve_left hu) (fun _ => ⟨⟨k, rfl⟩, trivial⟩)
      (fun _ hvs => hvs.setQueue hQ rfl rfl) (fun _ => trivial) False.elim
  | notified hQ ht =>
    exact h.keep hI hpc hQ hQ rfl (h.nodup _ hQ) (fun _ _ hm => hm) (fun hm => absurd hm ht)
      (fun _ hvs => hvs) id fun _ => trivial
  | spurious hQ ht =>
    have hnd := h.nodup _ hQ
    exact h.keep hI hpc hQ (Shared.setQueue_self ..) rfl (hnd.erase _)
      (fun _ _ hm => List.mem_of_mem_erase hm)
      (fun hm => absurd rfl (hnd.mem_erase_iff.mp hm).1)
      (fun _ hvs => hvs.setQueue hQ rfl rfl) id fun _ => trivial
  | timeout hQ hk =>
    obtain rfl : _ = (⟨.forever, .one⟩ : Take) := hp
    cases hk
  | popLoop => exact hp.elim
  | popData hQ => exact h.same hI hpc hQ hQ rfl rfl (by simp) (fun _ hvs => hvs) id id
  | popNode hQ hhd hnd =>
    obtain rfl : _ = (⟨.forever, .one⟩ : Take) := hp
    exact h.unlink hI hpcs has hQ hpc hhd hnd

end Steps

/-! ## Runs -/

/-- INTERNAL: the invariant holds of a queue just constructed. -/
theorem waitersInv_oneQueue : WaitersInv (oneQueue Tid T) := by
  have hQ : ∀ Q' : Queue Tid, (oneQueue Tid T).sh.queues () = some Q' →
      Q' = ⟨none, none, [], false, some 0, some 0⟩ := fun Q' h => by simpa [oneQueue] using h.symm
  refine ⟨fun _ => trivial, fun q Q' h => ?_, fun Q' h => ?_, fun Q' h u hu => ?_,
    fun Q' vs h hvs _ => ?_⟩
  · rw [hQ Q' h]
  · rw [hQ Q' h]
    exact List.nodup_nil
  · rw [hQ Q' h] at hu
    cases hu
  · obtain rfl := (hvs.nil_iff h).mpr (by rw [hQ Q' h])
    exact ⟨[], by simp, by simp, by simp⟩

/-- In every run of waiters and pushers in which no notification is lost, no waiter is
left parked beside a nonempty queue. -/
theorem not_stranded_run [DecidableEq Tid] {c : Config Tid (Pc Unit T) (Shared Tid Unit T)}
    {tr : List (Tid × Lab Unit T)} (h : Run QueueStep Careful (oneQueue Tid T) tr c) :
    ¬Stranded c := by
  have hinv : WaitersInv c ∧ (c.sh.queues ()).isSome := by
    refine h.trace_invariant (fun _ c => WaitersInv c ∧ (c.sh.queues ()).isSome)
      ⟨waitersInv_oneQueue, rfl⟩ ?_
    rintro tr c ⟨t, l⟩ c' hr ⟨hinv, hsome⟩ ⟨hcall, hlost⟩ hstep
    obtain ⟨own, hI, hloc⟩ := outline_run outline_oneQueue locksExact_oneQueue hr
    obtain ⟨Q₁, hQ₁⟩ := Option.isSome_iff_exists.mp hsome
    cases hstep with
    | mk hP =>
      have hp' := queueStep_ofWaiters hcall (hinv.pcs t) hinv.interrupt hP
      have hstop : ∀ q, c.pc t ≠ .setStop q := fun q hq => by
        have hp := hinv.pcs t
        rw [hq] at hp
        exact hp
      refine ⟨⟨fun u => ?_, queueStep_noInterrupt hinv.interrupt hstop hP, ?_⟩, ?_⟩
      · by_cases hut : u = t
        · subst hut
          simpa using hp'
        · simpa [Function.update_of_ne hut] using hinv.pcs u
      · cases hP with
        | client hs =>
          exact clientStep_attendance hinv.attendance hI rfl (hinv.pcs t) hQ₁ hlost hs
        | push hs =>
          exact pushStep_attendance hinv.attendance hI rfl (hloc t) (hinv.pcs t) hQ₁ hs
        | pop hs =>
          exact popStep_attendance hinv.attendance hI rfl hinv.pcs hloc hinv.interrupt hQ₁ hs
        | locked hs =>
          have hp := hinv.pcs t
          generalize c.pc t = p at hs hp
          cases hs <;> exact hp.elim
      · exact queueStep_isSome hP () hsome
  obtain ⟨own, hI, -⟩ := outline_run outline_oneQueue locksExact_oneQueue h
  exact hinv.1.attendance.not_stranded hI

/-- INTERNAL: only a notification can be lost. -/
theorem careful_none {c : Config Tid (Pc Unit T) (Shared Tid Unit T)} {t : Tid}
    (h : ∀ n, c.pc t ≠ .notify () n) : Careful c (t, none) :=
  ⟨fun _ hop => (by cases hop), fun ⟨n, _, hn, _⟩ => h n hn⟩

theorem careful_call {c : Config Tid (Pc Unit T) (Shared Tid Unit T)} {t : Tid} {op : Op Unit T}
    (hop : op.ofWaiters) (h : ∀ n, c.pc t ≠ .notify () n) : Careful c (t, some (.call op)) :=
  ⟨fun op' hop' => (by cases hop'; exact hop), fun ⟨n, _, hn, _⟩ => h n hn⟩

theorem careful_notify {c : Config Tid (Pc Unit T) (Shared Tid Unit T)} {t u : Tid}
    {l : Lab Unit T} {Q' : Queue Tid} (hQ : c.sh.queues () = some Q') (hu : u ∈ Q'.mCb)
    (hcall : ∀ op, l = some (.call op) → op.ofWaiters) : Careful c (t, l) := by
  refine ⟨hcall, ?_⟩
  rintro ⟨n, Q'', -, hQ'', hcb, -⟩
  obtain rfl : Q' = Q'' := by simpa using hQ.symm.trans hQ''
  simp [hcb] at hu

/-- A waiter parks, an element is pushed, and its notification wakes the waiter. -/
theorem not_stranded_notified :
    ∃ (c : Config Bool (Pc Unit ℕ) (Shared Bool Unit ℕ)) (tr : List (Bool × Lab Unit ℕ)),
      Run QueueStep Careful (oneQueue Bool ℕ) tr c ∧
        (∃ Q', c.sh.queues () = some Q' ∧ Q'.mHead ≠ Q'.mTail ∧ Q'.mCb = []) ∧ ¬Stranded c := by
  have quiet : ∀ {c : Config Bool (Pc Unit ℕ) (Shared Bool Unit ℕ)} {t : Bool},
      (∀ n, c.pc t ≠ .notify () n) → Careful c (t, none) := careful_none
  have h₁ := (Run.nil : Run QueueStep Careful (oneQueue Bool ℕ) [] _).snoc
    true (careful_call (.inl rfl) fun _ h => by cases h) (.client (.call _ (.waitAndPop ())))
  have h₂ := h₁.snoc true (quiet fun _ h => by cases h) (.pop (.lockHead rfl rfl))
  have h₃ := h₂.snoc true (quiet fun _ h => by cases h) (.pop (.testInterrupt rfl))
  have h₄ := h₃.snoc true (quiet fun _ h => by cases h) (.pop (.lockTailMut rfl rfl))
  have h₅ := h₄.snoc true (quiet fun _ h => by cases h) (.pop (.readTail rfl rfl))
  have h₆ := h₅.snoc true (quiet fun _ h => by cases h) (.pop (.unlockTailMut rfl))
  have h₇ := h₆.snoc true (quiet fun _ h => by cases h) (.pop (.testEmpty rfl))
  have h₈ := h₇.snoc true (quiet fun _ h => by cases h) (.pop (.park rfl))
  have k₁ := h₈.snoc false (careful_call (.inr (.inl ⟨7, rfl⟩)) fun _ h => by cases h)
    (.client (.call _ (.pushAndNotifyOne () 7)))
  have k₂ := k₁.snoc false (quiet fun _ h => by cases h) (.push (.makeNode (a := 1) rfl))
  have k₃ := k₂.snoc false (quiet fun _ h => by cases h) (.push (.lockTail rfl rfl))
  have k₄ := k₃.snoc false (quiet fun _ h => by cases h) (.push (.constructData rfl rfl rfl))
  have k₅ := k₄.snoc false (quiet fun _ h => by cases h) (.push (.setInitialized rfl rfl rfl))
  have k₆ := k₅.snoc false (quiet fun _ h => by cases h) (.push (.linkNext rfl rfl rfl))
  have k₇ := k₆.snoc false (quiet fun _ h => by cases h) (.push (.moveTail rfl rfl rfl))
  have k₈ := k₇.snoc false (quiet fun _ h => by cases h) (.push (.unlockTail rfl))
  have k₉ := k₈.snoc false (careful_notify rfl (.head []) fun _ h => by cases h)
    (.client (.notifyOne (u := true) rfl (.head [])))
  exact ⟨_, _, k₉, ⟨⟨none, none, [], false, some 0, some 1⟩, rfl, by decide, rfl⟩,
    not_stranded_run k₉⟩

end UbuntuProjects.TsQueue
