import UbuntuProjects.Model.TsStack

/-!
# What the threads of `ts_stack` own and wait for

A thread owns `m_mut` exactly between locking and unlocking it (`Pc.holding`), and only a
parked thread is in `m_cb`. Since `m_mut` protects the elements, a thread that has found the
stack empty and is about to park still finds it empty (`Standing.empty`). This holds in
every configuration of every run (`stackInv_run`).
-/

set_option autoImplicit false

namespace UbuntuProjects.TsStack

open Concurrency
open TsQueue (Take Amount Notify)

variable {Tid T : Type}

/-! ## The bodies of the pops -/

section Bodies

variable {k : Take} {last interrupt : Bool} {st rest : List T} {r : TsQueue.Res T}

theorem popNUnprotected_append (count : ℤ) (st : List T) :
    (popNUnprotected count st).1 ++ (popNUnprotected count st).2 = st := by
  induction st generalizing count with
  | nil => rfl
  | cons v st ih =>
    unfold popNUnprotected
    by_cases hc : count = 0
    · simp [hc]
    · simp [hc, ih (count - 1)]

/-- A removal takes elements from the top. -/
theorem remove_append (a : Amount) (st : List T) : (remove a st).1 ++ (remove a st).2 = st := by
  cases a with
  | one => cases st <;> rfl
  | many count => exact popNUnprotected_append count st

theorem remove_length_le (a : Amount) (st : List T) : (remove a st).2.length ≤ st.length := by
  have hlen := congrArg List.length (remove_append a st)
  rw [List.length_append] at hlen
  omega

/-- A removal with a count takes an element if there is one. -/
theorem remove_length_lt {a : Amount} (ha : a ≠ .many 0) (hst : st ≠ []) :
    (remove a st).2.length < st.length := by
  cases st with
  | nil => exact absurd rfl hst
  | cons v st =>
    cases a with
    | one => exact Nat.lt_succ_self _
    | many count =>
      have hc : count ≠ 0 := by
        rintro rfl
        exact ha rfl
      have hle := remove_length_le (.many (count - 1)) st
      simp only [remove] at hle
      simp only [remove, popNUnprotected, if_neg hc, List.length_cons]
      omega

/-- Only a waiting pop waits, and only for an empty stack. -/
theorem popBody_wait (h : popBody k last interrupt st = .wait) : st = [] ∧ k.wait ≠ .never := by
  unfold popBody at h
  split at h
  · split at h <;> cases h
  · rename_i hk
    split at h
    · cases h
    · split at h
      · rename_i hst
        exact ⟨List.isEmpty_iff.mp hst, hk⟩
      · cases h

theorem popBody_length_le (h : popBody k last interrupt st = .leave r rest) :
    rest.length ≤ st.length := by
  unfold popBody at h
  have hle := remove_length_le k.amount st
  split at h
  · split at h <;> cases h <;> omega
  · split at h
    · cases h; omega
    · split at h
      · split at h <;> cases h; omega
      · cases h; omega

/-- A waiting pop with a count that is not interrupted leaves with an element if there is
one. -/
theorem popBody_length_lt (h : popBody k last false st = .leave r rest) (hk : k.wait ≠ .never)
    (ha : k.amount ≠ .many 0) : st = [] ∧ rest = [] ∨ rest.length < st.length := by
  by_cases hst : st = []
  · have hle := popBody_length_le h
    subst hst
    exact .inl ⟨rfl, List.eq_nil_of_length_eq_zero (by simpa using hle)⟩
  · have hlt := remove_length_lt ha hst
    have hne : st.isEmpty = false := by simpa using hst
    unfold popBody at h
    split at h
    · contradiction
    · simp only [hne, Bool.false_eq_true, if_false] at h
      cases h
      exact .inr hlt

end Bodies

/-! ## One thread -/

/-- The control points between locking and unlocking `m_mut`. -/
def Pc.holding : Pc T → Prop
  | .push _ _ => True
  | .unlockPush _ _ => True
  | .test _ _ _ => True
  | .park _ => True
  | .unlock _ => True
  | .clear => True
  | .empty => True
  | .setStop => True
  | .notifyStop => True
  | _ => False

/-- What is known of thread `t` at the control point `p`. -/
structure Standing (s : Shared Tid T) (t : Tid) (p : Pc T) : Prop where
  owns : s.mMut = some t ↔ p.holding
  parked : t ∈ s.mCb → ∃ k, p = .parked k
  empty : ∀ k, p = .park k → s.mStack = []

/-- What a step of thread `t` leaves alone from the point of view of the others. -/
structure Frame (t : Tid) (s s' : Shared Tid T) : Prop where
  mutex : ∀ u, u ≠ t → (s'.mMut = some u ↔ s.mMut = some u)
  waiting : ∀ u, u ≠ t → u ∈ s'.mCb → u ∈ s.mCb
  elements : s.mMut ≠ some t → s'.mStack = s.mStack

section Steps

variable {s s' : Shared Tid T} {t u : Tid} {p p' : Pc T} {l : Lab T}

/-- INTERNAL: the other threads stay where they are. -/
theorem Standing.frame (h : Standing s u p) (hf : Frame t s s') (hu : u ≠ t) :
    Standing s' u p where
  owns := (hf.mutex u hu).trans h.owns
  parked hm := h.parked (hf.waiting u hu hm)
  empty k hk := by
    have hm : s.mMut = some u := h.owns.mpr (by rw [hk]; trivial)
    have hne : s.mMut ≠ some t := fun ht => hu (Option.some.inj (hm.symm.trans ht))
    exact (hf.elements hne).trans (h.empty k hk)

theorem Standing.notMem (h : Standing s t p) (hp : ∀ k, p ≠ .parked k) : t ∉ s.mCb := by
  intro hm
  obtain ⟨k, hk⟩ := h.parked hm
  exact hp k hk

/-- How a step may treat `m_mut`: not at all, lock it, or unlock it. -/
def MutexStep (t : Tid) (s s' : Shared Tid T) (p p' : Pc T) : Prop :=
  s'.mMut = s.mMut ∧ (p'.holding ↔ p.holding) ∨
  s.mMut = none ∧ s'.mMut = some t ∧ p'.holding ∨
  p.holding ∧ s'.mMut = none ∧ ¬p'.holding

/-- INTERNAL: what a step has to show. -/
theorem standing_step (h : Standing s t p) (hmut : MutexStep t s s' p p')
    (hcb : ∀ u, u ≠ t → u ∈ s'.mCb → u ∈ s.mCb) (hself : t ∈ s'.mCb → ∃ k, p' = .parked k)
    (hpark : ∀ k, p' = .park k → s'.mStack = []) (helem : s'.mStack = s.mStack ∨ p.holding) :
    Standing s' t p' ∧ Frame t s s' := by
  have hown : (s'.mMut = some t ↔ p'.holding) ∧
      ∀ u, u ≠ t → (s'.mMut = some u ↔ s.mMut = some u) := by
    rcases hmut with ⟨hm, hp⟩ | ⟨hnone, hm, hp⟩ | ⟨hp, hm, hp'⟩
    · exact ⟨by rw [hm, hp]; exact h.owns, fun u _ => by rw [hm]⟩
    · refine ⟨by simp [hm, hp], fun u hu => ?_⟩
      simp [hm, hnone, Ne.symm hu]
    · refine ⟨by simp [hm, hp'], fun u hu => ?_⟩
      simp [hm, h.owns.mpr hp, Ne.symm hu]
  refine ⟨⟨hown.1, hself, hpark⟩, hown.2, hcb, fun hne => ?_⟩
  rcases helem with hsame | hhold
  · exact hsame
  · exact absurd (h.owns.mpr hhold) hne

/-- INTERNAL: a step of a thread that is not parked, which only takes threads out of `m_cb`. -/
theorem standing_awake (h : Standing s t p) (hp : ∀ k, p ≠ .parked k)
    (hmut : MutexStep t s s' p p') (hcb : s'.mCb ⊆ s.mCb) (hp' : ∀ k, p' ≠ .park k)
    (helem : s'.mStack = s.mStack ∨ p.holding) : Standing s' t p' ∧ Frame t s s' :=
  standing_step h hmut (fun _ _ hm => hcb hm) (fun hm => absurd (hcb hm) (h.notMem hp))
    (fun k hk => absurd hk (hp' k)) helem

variable [DecidableEq Tid]

theorem clientStep_standing (h : Standing s t p) (hs : ClientStep t p s l p' s') :
    Standing s' t p' ∧ Frame t s s' := by
  cases hs with
  | call _ op =>
    refine standing_awake h (by simp) (.inl ⟨rfl, ?_⟩) (List.Subset.refl _) ?_ (.inl rfl)
    · cases op <;> exact Iff.rfl
    · cases op <;> simp [Op.entry]
  | ret | notifyNobody =>
    exact standing_awake h (by simp) (.inl ⟨rfl, Iff.rfl⟩) (List.Subset.refl _) (by simp) (.inl rfl)
  | notifyOne =>
    exact standing_awake h (by simp) (.inl ⟨rfl, Iff.rfl⟩) List.erase_subset (by simp) (.inl rfl)
  | notifyAll | notifyStop =>
    exact standing_awake h (by simp) (.inl ⟨rfl, Iff.rfl⟩) (List.nil_subset _) (by simp) (.inl rfl)
  | lockStop hm =>
    exact standing_awake h (by simp) (.inr (.inl ⟨hm, rfl, trivial⟩)) (List.Subset.refl _)
      (by simp) (.inl rfl)
  | setStop =>
    exact standing_awake h (by simp) (.inl ⟨rfl, Iff.rfl⟩) (List.Subset.refl _) (by simp) (.inl rfl)

omit [DecidableEq Tid] in
theorem stackStep_standing (h : Standing s t p) (hs : StackStep t p s l p' s') :
    Standing s' t p' ∧ Frame t s s' := by
  cases hs with
  | lockPush hm | lockClear hm | lockEmpty hm =>
    exact standing_awake h (by simp) (.inr (.inl ⟨hm, rfl, trivial⟩)) (List.Subset.refl _)
      (by simp) (.inl rfl)
  | push | pushThrew | clear | empty =>
    exact standing_awake h (by simp) (.inl ⟨rfl, Iff.rfl⟩) (List.Subset.refl _) (by simp)
      (.inr trivial)
  | @unlockPush _ vs n =>
    refine standing_awake h (by simp) (.inr (.inr ⟨trivial, rfl, ?_⟩)) (List.Subset.refl _) ?_
      (.inl rfl)
    · cases n <;> exact id
    · cases n <;> simp [afterPush]
  | unlock =>
    exact standing_awake h (by simp) (.inr (.inr ⟨trivial, rfl, id⟩)) (List.Subset.refl _)
      (by simp) (.inl rfl)

theorem popStep_standing (h : Standing s t p) (hnd : s.mCb.Nodup) (hs : PopStep t p s l p' s') :
    Standing s' t p' ∧ Frame t s s' := by
  cases hs with
  | lockPop hm | tryLock hm | relock hm =>
    exact standing_awake h (by simp) (.inr (.inl ⟨hm, rfl, trivial⟩)) (List.Subset.refl _)
      (by simp) (.inl rfl)
  | tryLockFail =>
    exact standing_awake h (by simp) (.inl ⟨rfl, Iff.rfl⟩) (List.Subset.refl _) (by simp) (.inl rfl)
  | leave | popThrew =>
    exact standing_awake h (by simp) (.inl ⟨rfl, Iff.rfl⟩) (List.Subset.refl _) (by simp)
      (.inr trivial)
  | wait hw =>
    exact standing_step h (.inl ⟨rfl, Iff.rfl⟩) (fun _ _ hm => hm)
      (fun hm => absurd hm (h.notMem (by simp))) (fun _ _ => (popBody_wait hw).1)
      (.inl rfl)
  | park =>
    exact standing_step h (.inr (.inr ⟨trivial, rfl, id⟩))
      (fun u hu hm => (List.mem_cons.mp hm).resolve_left hu) (fun _ => ⟨_, rfl⟩) (by simp) (.inl rfl)
  | notified hm =>
    exact standing_step h (.inl ⟨rfl, Iff.rfl⟩) (fun _ _ hm => hm) (fun hm' => absurd hm' hm)
      (by simp) (.inl rfl)
  | spurious | timeout =>
    exact standing_step h (.inl ⟨rfl, Iff.rfl⟩) (fun _ _ hm => List.mem_of_mem_erase hm)
      (fun hm => absurd rfl (hnd.mem_erase_iff.mp hm).1) (by simp) (.inl rfl)

theorem tsStackStep_standing (h : Standing s t p) (hnd : s.mCb.Nodup)
    (hs : TsStackStep t p s l p' s') : Standing s' t p' ∧ Frame t s s' := by
  cases hs with
  | client hs => exact clientStep_standing h hs
  | stack hs => exact stackStep_standing h hs
  | pop hs => exact popStep_standing h hnd hs

/-- INTERNAL: nobody is in `m_cb` twice. -/
theorem tsStackStep_nodup (h : Standing s t p) (hnd : s.mCb.Nodup)
    (hs : TsStackStep t p s l p' s') : s'.mCb.Nodup := by
  cases hs with
  | client hs =>
    cases hs with
    | notifyOne => exact hnd.erase _
    | notifyAll | notifyStop => exact List.nodup_nil
    | _ => exact hnd
  | stack hs => cases hs <;> exact hnd
  | pop hs =>
    cases hs with
    | park => exact List.nodup_cons.mpr ⟨h.notMem (by simp), hnd⟩
    | spurious | timeout => exact hnd.erase _
    | _ => exact hnd

end Steps

/-! ## Runs -/

/-- What holds in every configuration of every run. -/
structure StackInv (c : Config Tid (Pc T) (Shared Tid T)) : Prop where
  nodup : c.sh.mCb.Nodup
  standing : ∀ t, Standing c.sh t (c.pc t)

theorem StackInv.step [DecidableEq Tid] {c c' : Config Tid (Pc T) (Shared Tid T)}
    {e : Tid × Lab T} (h : StackInv c) (hs : Step TsStackStep c e c') : StackInv c' := by
  obtain ⟨hs⟩ := hs
  rename_i t l p' s'
  obtain ⟨hown, hframe⟩ := tsStackStep_standing (h.standing t) h.nodup hs
  refine ⟨tsStackStep_nodup (h.standing t) h.nodup hs, fun u => ?_⟩
  by_cases hu : u = t
  · subst hu
    simpa using hown
  · simpa [Function.update_of_ne hu] using (h.standing u).frame hframe hu

theorem stackInv_start : StackInv (start Tid T) where
  nodup := List.nodup_nil
  standing t := ⟨by simp [start, Pc.holding], by simp [start], by simp [start]⟩

theorem stackInv_run [DecidableEq Tid] {G : Config Tid (Pc T) (Shared Tid T) → Tid × Lab T → Prop}
    {c : Config Tid (Pc T) (Shared Tid T)} {tr : List (Tid × Lab T)}
    (h : Run TsStackStep G (start Tid T) tr c) : StackInv c :=
  h.invariant StackInv stackInv_start fun _ _ _ hI _ hs => hI.step hs

end UbuntuProjects.TsStack
