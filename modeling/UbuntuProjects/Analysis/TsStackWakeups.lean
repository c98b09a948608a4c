import UbuntuProjects.Analysis.TsStackInvariant
import UbuntuProjects.Concurrency.Counting

/-!
# Waiters of `ts_stack` and their notifications

While somebody is parked un-notified, every element in the stack is paid for: by a thread
that was notified and has not tested the predicate since, or by a notification that the
thread that pushed has still to send (`Accounted`). A push pays for its elements with its
notification, a notification passes the payment on to the thread it wakes, and that thread
takes an element, or leaves an empty stack.

The exception is a pop that throws after it was woken: it leaves the element it was to take.
This does no harm if the others still pay for all elements, or if the notifications still to
be issued will wake everybody who is parked (`Spared`).
-/

set_option autoImplicit false

namespace UbuntuProjects.TsStack

open Concurrency
open TsQueue (Take Amount Notify)

variable {Tid T : Type}

/-! ## What pays for the elements -/

/-- The thread has been notified and has not tested the predicate since. -/
def Pc.notified [DecidableEq Tid] (cb : List Tid) (t : Tid) : Pc T → Bool
  | .parked _ => decide (t ∉ cb)
  | .relock _ _ n => n
  | .test _ _ n => n
  | _ => false

/-- The number of elements pushed by the thread's call for which it has still to issue its
notification. -/
def Pc.toNotify : Pc T → ℕ
  | .unlockPush _ .none => 0
  | .unlockPush vs _ => vs.length
  | .notify vs _ => vs.length
  | _ => 0

section Counts

variable [DecidableEq Tid]

/-- Thread `t` has been notified and has not tested the predicate since. -/
def Notified (c : Config Tid (Pc T) (Shared Tid T)) (t : Tid) : Prop :=
  (c.pc t).notified c.sh.mCb t = true

instance (c : Config Tid (Pc T) (Shared Tid T)) : DecidablePred (Notified c) :=
  fun t => inferInstanceAs (Decidable ((c.pc t).notified c.sh.mCb t = true))

/-- How many threads have been notified and have not tested the predicate since. -/
noncomputable def notifiedCount (c : Config Tid (Pc T) (Shared Tid T)) : ℕ :=
  {t | Notified c t}.ncard

/-- For how many elements the notification is still to be issued. -/
noncomputable def toNotifyCount (c : Config Tid (Pc T) (Shared Tid T)) : ℕ :=
  finsum fun t => (c.pc t).toNotify

/-- While somebody is parked un-notified, the elements are paid for. -/
def Accounted (c : Config Tid (Pc T) (Shared Tid T)) : Prop :=
  c.sh.mCb ≠ [] → c.sh.mStack.length ≤ notifiedCount c + toNotifyCount c

/-- The notifications still to be issued reach everybody who is parked un-notified, or the
elements are paid for without thread `t`. -/
def Spared (c : Config Tid (Pc T) (Shared Tid T)) (t : Tid) : Prop :=
  c.sh.mCb.length ≤ toNotifyCount c ∨
    c.sh.mStack.length ≤ {u | u ≠ t ∧ Notified c u}.ncard + toNotifyCount c

/-- What one thread pays for. -/
def Pc.pays (cb : List Tid) (t : Tid) (p : Pc T) : ℕ :=
  (if p.notified cb t = true then 1 else 0) + p.toNotify

end Counts

/-! ## The calls -/

/-- The calls whose elements are paid for: the pushes that notify for each element, and the
pops, which take an element if they wait. -/
def Op.paid : Op T → Prop
  | .emplace _ n => n ≠ .none
  | .pushRange _ n => n = .all
  | .take k => k.wait = .never ∨ k.amount ≠ .many 0
  | .stopWaitings => False
  | _ => True

/-- Only such calls are made, and no element operation throws, except that with `throws` a pop
may throw where it does no harm. -/
def Careful [DecidableEq Tid] (throws : Bool) (c : Config Tid (Pc T) (Shared Tid T))
    (e : Tid × Lab T) : Prop :=
  (∀ op, e.2 = .call op → op.paid) ∧ e.2 ≠ .pushThrew ∧
    (e.2 = .popThrew → throws = true ∧ Spared c e.1)

/-- The control points of such calls. -/
def Pc.paid : Pc T → Prop
  | .lockPush vs n => n ≠ .none ∧ (n = .one → vs.length ≤ 1)
  | .push vs n => n ≠ .none ∧ (n = .one → vs.length ≤ 1)
  | .unlockPush vs n => n ≠ .none ∧ (n = .one → vs.length ≤ 1)
  | .notify vs n => n = .one → vs.length ≤ 1
  | .lockPop k => k.wait = .never ∨ k.amount ≠ .many 0
  | .test k _ n =>
    (k.wait = .never ∨ k.amount ≠ .many 0) ∧ (n = true → k.wait ≠ .never)
  | .park k => k.wait ≠ .never ∧ k.amount ≠ .many 0
  | .parked k => k.wait ≠ .never ∧ k.amount ≠ .many 0
  | .relock k _ _ => k.wait ≠ .never ∧ k.amount ≠ .many 0
  | .lockStop => False
  | .setStop => False
  | .notifyStop => False
  | _ => True

section Steps

variable [DecidableEq Tid] {s s' : Shared Tid T} {t : Tid} {p p' : Pc T} {l : Lab T}

theorem tsStackStep_paid (h : p.paid) (hflag : s.mInterruptWaiting = false)
    (hcall : ∀ op, l = .call op → op.paid) (hs : TsStackStep t p s l p' s') :
    p'.paid ∧ s'.mInterruptWaiting = false := by
  cases hs with
  | client hs =>
    cases hs with
    | call _ op =>
      refine ⟨?_, hflag⟩
      have hop := hcall op rfl
      cases op with
      | emplace v n => exact ⟨hop, fun _ => le_refl 1⟩
      | pushRange vs n =>
        obtain rfl : n = .all := hop
        exact ⟨by simp, by simp⟩
      | take k => exact hop
      | notify n => exact fun _ => Nat.zero_le 1
      | stopWaitings => exact hop.elim
      | tryLockAndPop | clear | empty => trivial
    | ret | notifyOne | notifyNobody | notifyAll => exact ⟨trivial, hflag⟩
    | lockStop | setStop | notifyStop => exact h.elim
  | stack hs =>
    cases hs with
    | lockPush | push => exact ⟨h, hflag⟩
    | @unlockPush _ vs n =>
      refine ⟨?_, hflag⟩
      cases n with
      | none => exact absurd rfl h.1
      | one | all => exact h.2
    | _ => exact ⟨trivial, hflag⟩
  | pop hs =>
    cases hs with
    | lockPop => exact ⟨⟨h, by simp⟩, hflag⟩
    | tryLock => exact ⟨⟨.inl rfl, by simp⟩, hflag⟩
    | wait hw =>
      have hk := (popBody_wait hw).2
      exact ⟨⟨hk, h.1.resolve_left hk⟩, hflag⟩
    | relock => exact ⟨⟨.inr h.2, fun _ => h.1⟩, hflag⟩
    | park | notified | spurious | timeout => exact ⟨h, hflag⟩
    | tryLockFail | leave | popThrew => exact ⟨trivial, hflag⟩

end Steps

/-! ## The sum of the payments -/

section Payments

variable [DecidableEq Tid] {c : Config Tid (Pc T) (Shared Tid T)} {t : Tid}

/-- What all threads pay for. -/
noncomputable def payments (c : Config Tid (Pc T) (Shared Tid T)) : ℕ :=
  finsum fun t => (c.pc t).pays c.sh.mCb t

/-- INTERNAL: only threads that have moved pay. -/
theorem pays_idle (cb : List Tid) (t : Tid) : (Pc.idle : Pc T).pays cb t = 0 := rfl

omit [DecidableEq Tid] in
/-- INTERNAL: the support of anything that idle threads do not contribute to is finite. -/
theorem finite_support_of_moved {w : Tid → ℕ} (hfin : {t | c.pc t ≠ .idle}.Finite)
    (hw : ∀ t, c.pc t = .idle → w t = 0) : (Function.support w).Finite := by
  refine hfin.subset fun t ht hidle => ?_
  exact ht (hw t hidle)

theorem payments_eq (hfin : {t | c.pc t ≠ .idle}.Finite) :
    payments c = notifiedCount c + toNotifyCount c := by
  rw [notifiedCount, ncard_eq_finsum, toNotifyCount, payments]
  refine finsum_add_distrib ?_ ?_
  · exact finite_support_of_moved hfin fun t ht => by simp [ht, Pc.notified]
  · exact finite_support_of_moved hfin fun t ht => by simp [ht, Pc.toNotify]

/-- INTERNAL: the payments without those of a thread that has nothing to notify for. -/
theorem payments_without (hfin : {t | c.pc t ≠ .idle}.Finite) (ht : (c.pc t).toNotify = 0) :
    {u | u ≠ t ∧ Notified c u}.ncard + toNotifyCount c + (c.pc t).pays c.sh.mCb t =
      payments c := by
  have hone := finsum_of_update (f := fun u => if Notified c u then 1 else 0)
    (g := fun u => if u ≠ t ∧ Notified c u then 1 else 0) (t := t)
    (finite_support_of_moved hfin fun u hu => by simp [Notified, hu, Pc.notified])
    fun u hu => by simp [hu]
  have hpays : (c.pc t).pays c.sh.mCb t = if Notified c t then 1 else 0 := by
    rw [Pc.pays, ht, Nat.add_zero]
    rfl
  rw [payments_eq hfin, notifiedCount, ncard_eq_finsum, ncard_eq_finsum, hpays]
  simp only [ne_eq, not_true_eq_false, false_and, if_false, Nat.add_zero] at hone ⊢
  omega

end Payments

/-! ## The step lemma -/

section Accounting

variable [DecidableEq Tid] {pc : Tid → Pc T} {s s' : Shared Tid T} {t : Tid} {p p' : Pc T}
  {b : Bool}

/-- INTERNAL: whether another thread has been notified depends on its place in `m_cb` only. -/
theorem pays_congr {cb cb' : List Tid} {u : Tid} (h : u ∈ cb' ↔ u ∈ cb) (p : Pc T) :
    p.pays cb' u = p.pays cb u := by
  have hn : p.notified cb' u = p.notified cb u := by
    cases p <;> simp [Pc.notified, h]
  rw [Pc.pays, Pc.pays, hn]

/-- INTERNAL: the payments after a step that moves nobody else into or out of `m_cb`. -/
theorem payments_step (hfin : {t | pc t ≠ .idle}.Finite)
    (hcb : ∀ u, u ≠ t → (u ∈ s'.mCb ↔ u ∈ s.mCb)) :
    payments ⟨Function.update pc t p', s'⟩ + (pc t).pays s.mCb t =
      payments ⟨pc, s⟩ + p'.pays s'.mCb t := by
  have hsum := finsum_of_update (f := fun u => (pc u).pays s.mCb u)
    (g := fun u => (Function.update pc t p' u).pays s'.mCb u) (t := t)
    (hfin.subset fun u hu hidle => hu (by simp [hidle, pays_idle]))
    fun u hu => by rw [Function.update_of_ne hu]; exact pays_congr (hcb u hu) (pc u)
  rw [Function.update_self] at hsum
  exact hsum

/-- INTERNAL: the notifications still to be issued after a step. -/
theorem toNotifyCount_step (hfin : {t | pc t ≠ .idle}.Finite) :
    toNotifyCount ⟨Function.update pc t p', s'⟩ + (pc t).toNotify =
      toNotifyCount ⟨pc, s⟩ + p'.toNotify := by
  have hsum := finsum_of_update (f := fun u => (pc u).toNotify)
    (g := fun u => (Function.update pc t p' u).toNotify) (t := t)
    (hfin.subset fun u hu hidle => hu (by simp [hidle, Pc.toNotify]))
    fun u hu => by rw [Function.update_of_ne hu]
  rw [Function.update_self] at hsum
  exact hsum

/-- Nobody is parked un-notified (with `throws`: nobody beyond those whom the notifications
still to be issued will wake), or the threads pay for the elements. -/
def Covered (throws : Bool) (c : Config Tid (Pc T) (Shared Tid T)) : Prop :=
  c.sh.mCb.length ≤ (if throws = true then toNotifyCount c else 0) ∨
    c.sh.mStack.length ≤ payments c

/-- INTERNAL: a step keeps the elements covered if it adds no more elements than it pays for
and parks nobody, or leaves no elements. -/
theorem Covered.step (h : Covered b ⟨pc, s⟩) (hfin : {t | pc t ≠ .idle}.Finite) (hpc : pc t = p)
    (hcb : ∀ u, u ≠ t → (u ∈ s'.mCb ↔ u ∈ s.mCb))
    (hlen : s'.mStack = [] ∨ s'.mCb.length ≤ s.mCb.length ∧ p.toNotify ≤ p'.toNotify ∧
      s'.mStack.length + p.pays s.mCb t ≤ s.mStack.length + p'.pays s'.mCb t) :
    Covered b ⟨Function.update pc t p', s'⟩ := by
  rcases hlen with hnil | ⟨hparked, hnotify, hlen⟩
  · exact .inr (by simp [hnil])
  · have hsum : payments ⟨Function.update pc t p', s'⟩ + _ = _ := payments_step hfin hcb
    have hcount : toNotifyCount ⟨Function.update pc t p', s'⟩ + _ = toNotifyCount ⟨pc, s⟩ + _ :=
      toNotifyCount_step hfin
    rw [hpc] at hsum hcount
    rcases h with hfew | hpaid
    · change s.mCb.length ≤ _ at hfew
      refine .inl ?_
      change s'.mCb.length ≤ _
      cases b <;> simp only [Bool.false_eq_true, if_false, if_true] at hfew ⊢ <;> omega
    · change s.mStack.length ≤ _ at hpaid
      refine .inr ?_
      change s'.mStack.length ≤ _
      omega

/-- INTERNAL: a step that touches neither `m_cb` nor the elements. -/
theorem Covered.same (h : Covered b ⟨pc, s⟩) (hfin : {t | pc t ≠ .idle}.Finite) (hpc : pc t = p)
    (hcb : s'.mCb = s.mCb) (hst : s'.mStack = s.mStack)
    (hpays : p.toNotify ≤ p'.toNotify ∧ p.pays s.mCb t ≤ p'.pays s.mCb t) :
    Covered b ⟨Function.update pc t p', s'⟩ := by
  refine h.step hfin hpc (fun u _ => by rw [hcb]) (.inr ⟨by rw [hcb], hpays.1, ?_⟩)
  rw [hst, hcb]
  omega

/-- INTERNAL: nothing has to be paid for when nobody is parked. -/
theorem covered_of_nobody (hcb : s.mCb = []) : Covered b ⟨pc, s⟩ :=
  .inl (by simp [hcb])

/-- INTERNAL: a notification passes what it pays for on to the thread it wakes. -/
theorem Covered.notifyOne (h : Covered b ⟨pc, s⟩) (hfin : {t | pc t ≠ .idle}.Finite)
    (hI : StackInv ⟨pc, s⟩) {vs : List T} (hpc : pc t = .notify vs .one) (hvs : vs.length ≤ 1)
    {u : Tid} (hu : u ∈ s.mCb) :
    Covered b ⟨Function.update pc t (.returning (.of .unit)), { s with mCb := s.mCb.erase u }⟩ := by
  have hnd : s.mCb.Nodup := hI.nodup
  obtain ⟨k, hk⟩ : ∃ k, pc u = .parked k := (hI.standing u).parked hu
  have hut : u ≠ t := by
    rintro rfl
    rw [hk] at hpc
    cases hpc
  have hsum : payments ⟨Function.update pc t (.returning (.of .unit)),
        { s with mCb := s.mCb.erase u }⟩ + (pc t).pays s.mCb t + (pc u).pays s.mCb u =
      payments ⟨pc, s⟩ + _ + _ := finsum_of_update_two (f := fun u => (pc u).pays s.mCb u)
    (g := fun v => (Function.update pc t (.returning (.of .unit)) v).pays (s.mCb.erase u) v)
    (t := t) (v := u)
    (hfin.subset fun u hu hidle => hu (by simp [hidle, pays_idle])) (Ne.symm hut)
    fun v hvt hvu => by
      rw [Function.update_of_ne hvt]
      exact pays_congr (List.mem_erase_of_ne hvu) (pc v)
  have hpt : (pc t).pays s.mCb t = vs.length := by simp [hpc, Pc.pays, Pc.notified, Pc.toNotify]
  have hpu : (pc u).pays s.mCb u = 0 := by simp [hk, Pc.pays, Pc.notified, Pc.toNotify, hu]
  have hpu' : (Function.update pc t (.returning (.of .unit)) u).pays (s.mCb.erase u) u = 1 := by
    simp [Function.update_of_ne hut, hk, Pc.pays, Pc.notified, Pc.toNotify, hnd.not_mem_erase]
  have hcount : toNotifyCount ⟨Function.update pc t (.returning (.of .unit)),
      { s with mCb := s.mCb.erase u }⟩ + (pc t).toNotify = toNotifyCount ⟨pc, s⟩ + 0 :=
    toNotifyCount_step hfin
  have hvs' : (pc t).toNotify = vs.length := by rw [hpc]; rfl
  have hshort := List.length_erase_of_mem hu
  have hpos : 0 < s.mCb.length := List.length_pos_of_mem hu
  rw [hpt, hpu, hpu'] at hsum
  rw [hvs'] at hcount
  rcases h with hfew | hpaid
  · change s.mCb.length ≤ _ at hfew
    refine .inl ?_
    change (s.mCb.erase u).length ≤ _
    cases b <;> simp only [Bool.false_eq_true, if_false, if_true] at hfew ⊢ <;> omega
  · change s.mStack.length ≤ _ at hpaid
    refine .inr ?_
    change s.mStack.length ≤ _
    omega

theorem clientStep_covered {l : Lab T} (h : Covered b ⟨pc, s⟩) (hfin : {t | pc t ≠ .idle}.Finite)
    (hI : StackInv ⟨pc, s⟩) (hpc : pc t = p) (hpaid : p.paid) (hs : ClientStep t p s l p' s') :
    Covered b ⟨Function.update pc t p', s'⟩ := by
  cases hs with
  | call _ op => exact h.same hfin hpc rfl rfl ⟨Nat.zero_le _, Nat.zero_le _⟩
  | ret => exact h.same hfin hpc rfl rfl (by simp [Pc.pays, Pc.notified, Pc.toNotify])
  | notifyOne hu => exact h.notifyOne hfin hI hpc (hpaid rfl) hu
  | notifyNobody hnil => exact covered_of_nobody hnil
  | notifyAll => exact covered_of_nobody rfl
  | lockStop | setStop | notifyStop => exact hpaid.elim

theorem stackStep_covered {l : Lab T} (h : Covered b ⟨pc, s⟩) (hfin : {t | pc t ≠ .idle}.Finite)
    (hpc : pc t = p) (hpaid : p.paid) (hl : l ≠ .pushThrew) (hs : StackStep t p s l p' s') :
    Covered b ⟨Function.update pc t p', s'⟩ := by
  cases hs with
  | lockPush | lockClear | lockEmpty | empty | unlock =>
    exact h.same hfin hpc rfl rfl (by simp [Pc.pays, Pc.notified, Pc.toNotify])
  | @push _ vs n =>
    refine h.step hfin hpc (fun _ _ => Iff.rfl) (.inr ⟨le_refl _, Nat.zero_le _, ?_⟩)
    have hn : (Pc.unlockPush vs n).toNotify = vs.length := by
      cases n with
      | none => exact absurd rfl hpaid.1
      | one | all => rfl
    have hafter : (Pc.unlockPush vs n).pays s.mCb t = vs.length := by
      rw [Pc.pays, hn]
      simp [Pc.notified]
    have hbefore : (Pc.push vs n).pays s.mCb t = 0 := rfl
    change (vs.reverse ++ s.mStack).length + _ ≤ _ + (Pc.unlockPush vs n).pays s.mCb t
    rw [hafter, hbefore, List.length_append, List.length_reverse]
    omega
  | pushThrew => exact absurd rfl hl
  | @unlockPush _ vs n =>
    refine h.same hfin hpc rfl rfl ?_
    cases n with
    | none => exact absurd rfl hpaid.1
    | one | all => exact ⟨le_refl _, le_refl _⟩
  | clear => exact h.step hfin hpc (fun _ _ => Iff.rfl) (.inl rfl)

/-- INTERNAL: a pop that was woken by a notification takes an element, or leaves none. -/
theorem leave_pays {k : Take} {last n : Bool} {r : TsQueue.Res T} {rest : List T}
    (hpaid : (Pc.test k last n : Pc T).paid)
    (hb : popBody k last false s.mStack = .leave r rest) :
    rest = [] ∨ rest.length + (Pc.test k last n : Pc T).pays s.mCb t ≤ s.mStack.length := by
  have hle := popBody_length_le hb
  cases n with
  | false => exact .inr (by simpa [Pc.pays, Pc.notified, Pc.toNotify] using hle)
  | true =>
    have hk := hpaid.2 rfl
    rcases popBody_length_lt hb hk (hpaid.1.resolve_left hk) with ⟨-, hnil⟩ | hlt
    · exact .inl hnil
    · refine .inr ?_
      simp only [Pc.pays, Pc.notified, Pc.toNotify, if_true]
      omega

/-- INTERNAL: a pop that throws where it does no harm. -/
theorem covered_popThrew {k : Take} {last n : Bool} {st : List T}
    (hfin : {t | pc t ≠ .idle}.Finite) (hpc : pc t = .test k last n) (hspared : Spared ⟨pc, s⟩ t)
    (hlen : st.length ≤ s.mStack.length) :
    Covered true ⟨Function.update pc t (.unlock .threw), { s with mStack := st }⟩ := by
  have hnone : (pc t).toNotify = 0 := by
    rw [hpc]
    rfl
  have hwithout : _ + _ + (pc t).pays s.mCb t = payments ⟨pc, s⟩ :=
    payments_without (c := ⟨pc, s⟩) hfin hnone
  have hsum : payments ⟨Function.update pc t (.unlock .threw), { s with mStack := st }⟩ +
      (pc t).pays s.mCb t = payments ⟨pc, s⟩ + 0 := payments_step hfin fun _ _ => Iff.rfl
  have hcount : toNotifyCount ⟨Function.update pc t (.unlock .threw), { s with mStack := st }⟩ +
      (pc t).toNotify = toNotifyCount ⟨pc, s⟩ + 0 := toNotifyCount_step hfin
  rcases hspared with hfew | hpaid
  · change s.mCb.length ≤ _ at hfew
    refine .inl ?_
    change s.mCb.length ≤ _
    rw [if_pos rfl]
    omega
  · change s.mStack.length ≤ _ at hpaid
    refine .inr ?_
    change st.length ≤ _
    omega

theorem popStep_covered {l : Lab T} (h : Covered b ⟨pc, s⟩) (hfin : {t | pc t ≠ .idle}.Finite)
    (hI : StackInv ⟨pc, s⟩) (hpc : pc t = p) (hpaid : p.paid)
    (hflag : s.mInterruptWaiting = false)
    (hspared : l = .popThrew → b = true ∧ Spared ⟨pc, s⟩ t)
    (hs : PopStep t p s l p' s') : Covered b ⟨Function.update pc t p', s'⟩ := by
  cases hs with
  | lockPop | tryLock | tryLockFail =>
    exact h.same hfin hpc rfl rfl (by simp [Pc.pays, Pc.notified, Pc.toNotify])
  | relock => exact h.same hfin hpc rfl rfl ⟨le_refl _, le_refl _⟩
  | leave hb =>
    rw [hflag] at hb
    refine h.step hfin hpc (fun _ _ => Iff.rfl) ?_
    rcases leave_pays (t := t) hpaid hb with hnil | hle
    · exact .inl hnil
    · exact .inr ⟨le_refl _, Nat.zero_le _, hle⟩
  | popThrew hb hst =>
    obtain ⟨rfl, hharmless⟩ := hspared rfl
    refine covered_popThrew hfin hpc hharmless ?_
    rw [hst]
    simp
  | wait hw =>
    exact h.step hfin hpc (fun _ _ => Iff.rfl) (.inl (popBody_wait hw).1)
  | park =>
    have hempty : s.mStack = [] := (hI.standing t).empty _ hpc
    exact h.step hfin hpc (fun u hu => by simp [hu]) (.inl hempty)
  | notified ht => exact h.same hfin hpc rfl rfl (by simp [Pc.pays, Pc.notified, Pc.toNotify, ht])
  | spurious ht =>
    refine h.step hfin hpc (fun u hu => List.mem_erase_of_ne hu)
      (.inr ⟨List.length_erase_le, Nat.zero_le _, ?_⟩)
    simp [Pc.pays, Pc.notified, Pc.toNotify, ht]
  | timeout hk =>
    refine h.step hfin hpc (fun u hu => List.mem_erase_of_ne hu)
      (.inr ⟨List.length_erase_le, Nat.zero_le _, ?_⟩)
    simp [Pc.pays, Pc.notified, Pc.toNotify]

end Accounting

/-! ## Runs -/

section Runs

variable [DecidableEq Tid] {c c' : Config Tid (Pc T) (Shared Tid T)} {tr : List (Tid × Lab T)}

/-- What holds in every configuration of a careful run. -/
structure Books (throws : Bool) (c : Config Tid (Pc T) (Shared Tid T)) : Prop where
  inv : StackInv c
  moved : {t | c.pc t ≠ .idle}.Finite
  paid : ∀ t, (c.pc t).paid
  running : c.sh.mInterruptWaiting = false
  covered : Covered throws c

theorem Books.step {b : Bool} {e : Tid × Lab T} (h : Books b c) (hG : Careful b c e)
    (hs : Step TsStackStep c e c') : Books b c' := by
  have hinv := h.inv.step hs
  obtain ⟨hs⟩ := hs
  rename_i t l p' s'
  obtain ⟨hcall, hpush, hpop⟩ := hG
  obtain ⟨hpaid, hflag⟩ := tsStackStep_paid (h.paid t) h.running hcall hs
  refine ⟨hinv, (h.moved.insert t).subset fun u hu => ?_, fun u => ?_, hflag, ?_⟩
  · by_cases hut : u = t
    · exact .inl hut
    · exact .inr (by simpa [Function.update_of_ne hut] using hu)
  · by_cases hut : u = t
    · subst hut
      simpa using hpaid
    · simpa [Function.update_of_ne hut] using h.paid u
  · cases hs with
    | client hs => exact clientStep_covered h.covered h.moved h.inv rfl (h.paid t) hs
    | stack hs => exact stackStep_covered h.covered h.moved rfl (h.paid t) hpush hs
    | pop hs => exact popStep_covered h.covered h.moved h.inv rfl (h.paid t) h.running hpop hs

theorem books_start (b : Bool) : Books b (start Tid T) where
  inv := stackInv_start
  moved := by simp [start]
  paid _ := trivial
  running := rfl
  covered := covered_of_nobody rfl

theorem books_run {b : Bool} (h : Run TsStackStep (Careful b) (start Tid T) tr c) : Books b c :=
  h.invariant (Books b) (books_start b) fun _ _ _ hI hG hs => hI.step hG hs

/-- INTERNAL: without throws each element is accounted for while anybody waits. -/
theorem Books.accounted (h : Books false c) : Accounted c := by
  intro hne
  rw [← payments_eq h.moved]
  refine h.covered.resolve_left fun hfew => hne ?_
  exact List.eq_nil_of_length_eq_zero (by simpa using hfew)

/-- INTERNAL: when nobody is to test the predicate and nothing is to be notified for, nobody
is woken and no element is paid for. -/
theorem Books.rest {b : Bool} (h : Books b c)
    (hrest : ∀ t, ¬Notified c t ∧ (c.pc t).toNotify = 0) : c.sh.mCb = [] ∨ c.sh.mStack = [] := by
  have hnone : {t | Notified c t} = ∅ := Set.eq_empty_of_forall_notMem fun t ht => (hrest t).1 ht
  have hzero : toNotifyCount c = 0 := by
    rw [toNotifyCount, finsum_congr fun t => (hrest t).2]
    exact finsum_zero
  have hpay : payments c = 0 := by rw [payments_eq h.moved, notifiedCount, hnone, hzero]; simp
  rcases h.covered with hfew | hpaid
  · rw [hzero, ite_self] at hfew
    exact .inl (List.eq_nil_of_length_eq_zero (by omega))
  · exact .inr (List.eq_nil_of_length_eq_zero (by omega))

/-! ## No waiter is stranded -/

/-- The condition on a step: only paid calls are made, and no element operation throws. -/
def Paid (_ : Config Tid (Pc T) (Shared Tid T)) (e : Tid × Lab T) : Prop :=
  (∀ op, e.2 = .call op → op.paid) ∧ e.2 ≠ .pushThrew ∧ e.2 ≠ .popThrew

/-- **No stranded waiter.** In every run in which elements are added only by pushes that
notify once for each element or wake everybody, waiting pops take at least one element,
nothing throws and the waiting is not stopped: while somebody is parked un-notified, the
elements are at most the threads notified and yet to test the predicate plus the elements
whose notification is still to be issued. So when there is neither, nobody is parked or the
stack is empty. -/
theorem no_stranded_waiter (h : Run TsStackStep Paid (start Tid T) tr c) :
    Accounted c ∧
    ((∀ t, ¬Notified c t ∧ (c.pc t).toNotify = 0) → c.sh.mCb = [] ∨ c.sh.mStack = []) := by
  have hbooks : Books false c := books_run (h.mono fun _ _ hG =>
    ⟨hG.1, hG.2.1, fun hthrow => absurd hthrow hG.2.2⟩)
  exact ⟨hbooks.accounted, hbooks.rest⟩

end Runs

/-- Two threads are parked when a third one has pushed two elements and has yet to wake
everybody. -/
theorem no_stranded_waiter_range :
    ∃ (c : Config (Fin 3) (Pc ℕ) (Shared (Fin 3) ℕ)) (tr : List (Fin 3 × Lab ℕ)),
      Run TsStackStep Paid (start (Fin 3) ℕ) tr c ∧ c.sh.mCb = [1, 0] ∧ c.sh.mStack = [8, 7] ∧
        Accounted c := by
  have hstep : ∀ (c : Config (Fin 3) (Pc ℕ) (Shared (Fin 3) ℕ)) (t : Fin 3),
      Paid c (t, .step) := fun _ _ => ⟨fun _ h => (by cases h), by simp, by simp⟩
  have hcall : ∀ (c : Config (Fin 3) (Pc ℕ) (Shared (Fin 3) ℕ)) (t : Fin 3) (op : Op ℕ),
      op.paid → Paid c (t, .call op) := by
    refine fun _ _ op hop => ⟨fun op' h => ?_, by simp, by simp⟩
    obtain rfl : op = op' := by simpa using h
    exact hop
  have h₁ := (Run.nil : Run TsStackStep Paid (start (Fin 3) ℕ) [] _).snoc
    0 (hcall _ _ .waitAndPop (.inr (by decide))) (.client (.call _ _))
  have h₂ := h₁.snoc 0 (hstep _ _) (.pop (.lockPop rfl))
  have h₃ := h₂.snoc 0 (hstep _ _) (.pop (.wait rfl))
  have h₄ := h₃.snoc 0 (hstep _ _) (.pop .park)
  have h₅ := h₄.snoc 1 (hcall _ _ .waitAndPop (.inr (by decide))) (.client (.call _ _))
  have h₆ := h₅.snoc 1 (hstep _ _) (.pop (.lockPop rfl))
  have h₇ := h₆.snoc 1 (hstep _ _) (.pop (.wait rfl))
  have h₈ := h₇.snoc 1 (hstep _ _) (.pop .park)
  have h₉ := h₈.snoc 2 (hcall _ _ (.pushRangeAndNotifyAll [7, 8]) rfl) (.client (.call _ _))
  have h₁₀ := h₉.snoc 2 (hstep _ _) (.stack (.lockPush rfl))
  have h₁₁ := h₁₀.snoc 2 (hstep _ _) (.stack .push)
  have h₁₂ := h₁₁.snoc 2 (hstep _ _) (.stack .unlockPush)
  exact ⟨_, _, h₁₂, rfl, rfl, (no_stranded_waiter h₁₂).1⟩

end UbuntuProjects.TsStack
