import UbuntuProjects.Concurrency.Program
import UbuntuProjects.Model.HierarchyMutex

/-!
# `hierarchy_mutex`: what the values of the threads record

The mutexes that a thread holds, the one acquired last in front, have ascending
hierarchies, and `prev_h_` of each is the hierarchy of the next one (`Chain`). The thread's
value is the hierarchy of the one in front, except while the thread takes or releases that
mutex (`Stands`). Other threads write neither the thread's value nor a mutex that the
thread holds (`Frame`), so this is kept in every run (`bookkeeping_run`).
-/

set_option autoImplicit false

namespace UbuntuProjects.HierarchyMutex

open Concurrency (Config Run Step)

variable {Tid M α : Type} [LinearOrder α] [OrderTop α]

/-! ## Chains -/

/-- The hierarchy of the mutex in front. -/
def lowest (hierarchy : M → α) : List M → α
  | [] => ⊤
  | m :: _ => hierarchy m

/-- The hierarchies ascend, and each `prev_h_` is the next one. -/
def Chain (hierarchy prevH : M → α) : List M → Prop
  | [] => True
  | m :: L => prevH m = lowest hierarchy L ∧ hierarchy m < lowest hierarchy L ∧
    Chain hierarchy prevH L

section Chains

variable {hierarchy prevH prevH' : M → α} {m m' : M} {L : List M}

/-- INTERNAL: the mutex in front has the smallest hierarchy. -/
theorem Chain.lowest_le (h : Chain hierarchy prevH L) (hm : m ∈ L) :
    lowest hierarchy L ≤ hierarchy m := by
  induction L with
  | nil => cases hm
  | cons m₀ L ih =>
    obtain ⟨-, hlt, htail⟩ := h
    rcases List.mem_cons.mp hm with rfl | hm
    · exact le_refl _
    · exact hlt.le.trans (ih htail hm)

/-- INTERNAL: a mutex in front of a chain is not in it. -/
theorem Chain.not_mem (h : Chain hierarchy prevH L) (hlt : hierarchy m < lowest hierarchy L) :
    m ∉ L :=
  fun hm => absurd (h.lowest_le hm) (not_le_of_gt hlt)

/-- INTERNAL: the mutex with the smallest hierarchy is the one in front. -/
theorem Chain.head_of_eq (h : Chain hierarchy prevH L) (hm : m ∈ L)
    (heq : lowest hierarchy L = hierarchy m) : ∃ L', L = m :: L' := by
  cases L with
  | nil => cases hm
  | cons m₀ L =>
    obtain ⟨-, hlt, htail⟩ := h
    rcases List.mem_cons.mp hm with rfl | hm
    · exact ⟨L, rfl⟩
    · have hle := htail.lowest_le hm
      rw [← heq] at hle
      exact absurd hle (not_le_of_gt hlt)

/-- INTERNAL: only the `prev_h_` of the mutexes in the chain matter. -/
theorem Chain.congr (h : Chain hierarchy prevH L) (heq : ∀ m ∈ L, prevH' m = prevH m) :
    Chain hierarchy prevH' L := by
  induction L with
  | nil => trivial
  | cons m₀ L ih =>
    obtain ⟨hprev, hlt, htail⟩ := h
    exact ⟨(heq m₀ List.mem_cons_self).trans hprev, hlt,
      ih htail fun m hm => heq m (List.mem_cons_of_mem _ hm)⟩

end Chains

/-! ## The assertion of a thread -/

/-- What the thread's value and `prev_h_` are at each control point, for a thread that holds
`L`. -/
def Stands (hierarchy : M → α) (s : Shared Tid M α) (t : Tid) (L : List M) : Pc M → Prop
  | .storePrev _ m => ∃ L', L = m :: L' ∧ Chain hierarchy s.prevH L' ∧
    hierarchy m < lowest hierarchy L' ∧ s.thisThreadH t = lowest hierarchy L'
  | .storeThis _ m | .release m => ∃ L', L = m :: L' ∧ Chain hierarchy s.prevH L ∧
    s.thisThreadH t = lowest hierarchy L'
  | .restoreThis m => ∃ L', L = m :: L' ∧ Chain hierarchy s.prevH L ∧
    s.thisThreadH t = hierarchy m
  | .take _ m => Chain hierarchy s.prevH L ∧ s.thisThreadH t = lowest hierarchy L ∧
    hierarchy m < lowest hierarchy L
  | .unlockCheck m => Chain hierarchy s.prevH L ∧ s.thisThreadH t = lowest hierarchy L ∧ m ∈ L
  | _ => Chain hierarchy s.prevH L ∧ s.thisThreadH t = lowest hierarchy L

/-- The assertion of thread `t`, which holds `L`. -/
structure ThreadInv (hierarchy : M → α) (s : Shared Tid M α) (t : Tid) (L : List M)
    (p : Pc M) : Prop where
  owns : ∀ m, m ∈ L ↔ s.mut_ m = some t
  stands : Stands hierarchy s t L p

/-- What the steps of the other threads leave to thread `t`: its value, the mutexes it
holds and their `prev_h_`. -/
structure Frame (t : Tid) (s s' : Shared Tid M α) : Prop where
  value : s'.thisThreadH t = s.thisThreadH t
  owns : ∀ m, s'.mut_ m = some t ↔ s.mut_ m = some t
  prev : ∀ m, s.mut_ m = some t → s'.prevH m = s.prevH m

section Frames

variable {hierarchy : M → α} {s s' s'' : Shared Tid M α} {t u : Tid} {L : List M} {p : Pc M}

omit [LinearOrder α] [OrderTop α] in
theorem Frame.refl (t : Tid) (s : Shared Tid M α) : Frame t s s :=
  ⟨rfl, fun _ => Iff.rfl, fun _ _ => rfl⟩

omit [LinearOrder α] [OrderTop α] in
theorem Frame.trans (h : Frame t s s') (h' : Frame t s' s'') : Frame t s s'' :=
  ⟨h'.value.trans h.value, fun m => (h'.owns m).trans (h.owns m),
    fun m hm => (h'.prev m ((h.owns m).mpr hm)).trans (h.prev m hm)⟩

/-- The assertion of a thread depends on nothing else. -/
theorem ThreadInv.frame (h : ThreadInv hierarchy s t L p) (hf : Frame t s s') :
    ThreadInv hierarchy s' t L p := by
  have hchain : ∀ {L' : List M}, (∀ m ∈ L', m ∈ L) → Chain hierarchy s.prevH L' →
      Chain hierarchy s'.prevH L' := fun hsub hc =>
    hc.congr fun m hm => hf.prev m ((h.owns m).mp (hsub m hm))
  refine ⟨fun m => (h.owns m).trans (hf.owns m).symm, ?_⟩
  have hstands := h.stands
  cases p with
  | storePrev a m =>
    obtain ⟨L', rfl, hc, hlt, hv⟩ := hstands
    exact ⟨L', rfl, hchain (fun m => List.mem_cons_of_mem _) hc, hlt, hf.value.trans hv⟩
  | storeThis a m | release m =>
    obtain ⟨L', rfl, hc, hv⟩ := hstands
    exact ⟨L', rfl, hchain (fun m => id) hc, hf.value.trans hv⟩
  | restoreThis m =>
    obtain ⟨L', rfl, hc, hv⟩ := hstands
    exact ⟨L', rfl, hchain (fun m => id) hc, hf.value.trans hv⟩
  | take a m | unlockCheck m =>
    obtain ⟨hc, hv, hm⟩ := hstands
    exact ⟨hchain (fun m => id) hc, hf.value.trans hv, hm⟩
  | idle | returning r | check a m =>
    obtain ⟨hc, hv⟩ := hstands
    exact ⟨hchain (fun m => id) hc, hf.value.trans hv⟩

end Frames

/-! ## Steps -/

section Steps

variable [DecidableEq Tid] [DecidableEq M] {hierarchy : M → α} {s s' : Shared Tid M α}
  {t u : Tid} {L : List M} {p p' : Pc M} {l : Lab M}

omit [LinearOrder α] [OrderTop α] [DecidableEq Tid] in
/-- INTERNAL: taking or releasing a mutex that another thread does not hold. -/
theorem frame_setMut {m : M} {o : Option Tid} (hm : s.mut_ m ≠ some u) (ho : o ≠ some u) :
    Frame u s (s.setMut m o) := by
  refine ⟨rfl, fun m' => ?_, fun _ _ => rfl⟩
  by_cases hmm : m' = m
  · subst hmm
    simp [Shared.setMut, hm, ho]
  · simp [Shared.setMut, Function.update_of_ne hmm]

omit [LinearOrder α] [OrderTop α] [DecidableEq Tid] in
/-- INTERNAL: writing `prev_h_` of a mutex that another thread does not hold. -/
theorem frame_setPrev {m : M} {h : α} (hm : s.mut_ m ≠ some u) : Frame u s (s.setPrev m h) := by
  refine ⟨rfl, fun _ => Iff.rfl, fun m' hm' => ?_⟩
  refine Function.update_of_ne ?_ ..
  rintro rfl
  exact hm hm'

omit [DecidableEq M] [LinearOrder α] [OrderTop α] in
/-- INTERNAL: writing the value of another thread. -/
theorem frame_setThis {h : α} (hut : u ≠ t) : Frame u s (s.setThis t h) :=
  ⟨Function.update_of_ne hut .., fun _ => Iff.rfl, fun _ _ => rfl⟩

/-- A step leaves to the other threads what their assertions depend on. -/
theorem step_frame (h : ThreadInv hierarchy s t L p) (hut : u ≠ t)
    (hs : MutexStep hierarchy t p s l p' s') : Frame u s s' := by
  -- a mutex that `t` holds is not held by `u`
  have hother : ∀ {m : M}, m ∈ L → s.mut_ m ≠ some u := by
    intro m hm hu
    rw [(h.owns m).mp hm] at hu
    exact hut (Option.some.inj hu).symm
  have hstands := h.stands
  have hne : some t ≠ some u := fun heq => hut (Option.some.inj heq).symm
  cases hs with
  | take hfree => exact frame_setMut (by rw [hfree]; simp) hne
  | storePrev _ a m =>
    obtain ⟨L', rfl, -⟩ := hstands
    exact frame_setPrev (hother List.mem_cons_self)
  | storeThis _ a m => exact frame_setThis hut
  | restoreThis _ m => exact frame_setThis hut
  | release _ m =>
    obtain ⟨L', rfl, -⟩ := hstands
    exact frame_setMut (hother List.mem_cons_self) (by simp)
  | _ => exact Frame.refl u s

omit [DecidableEq Tid] [DecidableEq M] in
/-- INTERNAL: a step that changes nothing shared and neither takes nor releases a mutex. -/
theorem ThreadInv.move (h : ThreadInv hierarchy s t L p)
    (hp : Stands hierarchy s t L p → Stands hierarchy s t L p') : ThreadInv hierarchy s t L p' :=
  ⟨h.owns, hp h.stands⟩

omit [LinearOrder α] [OrderTop α] in
/-- INTERNAL: a step that neither takes nor releases a mutex. -/
theorem holdStep_of_ne (hacq : ∀ m, l ≠ .acquired m) (hrel : ∀ m, l ≠ .released m) :
    holdStep t L (t, l) = L := by
  cases l with
  | acquired m => exact absurd rfl (hacq m)
  | released m => exact absurd rfl (hrel m)
  | event e => simp [holdStep]
  | silent => simp [holdStep]

/-- A step keeps the assertion of its thread. -/
theorem step_own (h : ThreadInv hierarchy s t L p)
    (hunlock : ∀ m, l = .event (.call (.unlock m)) → s.mut_ m = some t)
    (hs : MutexStep hierarchy t p s l p' s') :
    ThreadInv hierarchy s' t (holdStep t L (t, l)) p' := by
  have hstands := h.stands
  cases hs with
  | call _ op =>
    rw [holdStep_of_ne (by simp) (by simp)]
    cases op with
    | lock m => exact h.move id
    | tryLock m => exact h.move id
    | unlock m => exact h.move fun hp => ⟨hp.1, hp.2, (h.owns m).mpr (hunlock m rfl)⟩
  | ret _ r =>
    rw [holdStep_of_ne (by simp) (by simp)]
    exact h.move id
  | checkThrow hle =>
    rw [holdStep_of_ne (by simp) (by simp)]
    exact h.move id
  | checkPass hlt =>
    rw [holdStep_of_ne (by simp) (by simp)]
    refine h.move fun hp => ⟨hp.1, hp.2, ?_⟩
    rw [← hp.2]
    exact lt_of_not_ge hlt
  | @take _ a m hfree =>
    obtain ⟨hc, hv, hlt⟩ := hstands
    have hL : holdStep t L (t, .acquired m) = m :: L := by simp [holdStep]
    rw [hL]
    refine ⟨fun m' => ?_, L, rfl, hc, hlt, hv⟩
    by_cases hmm : m' = m
    · subst hmm
      simp [Shared.setMut]
    · simp only [List.mem_cons, hmm, false_or, Shared.setMut, Function.update_of_ne hmm]
      exact h.owns m'
  | tryFail _ m =>
    rw [holdStep_of_ne (by simp) (by simp)]
    exact h.move fun hp => ⟨hp.1, hp.2.1⟩
  | storePrev _ a m =>
    rw [holdStep_of_ne (by simp) (by simp)]
    obtain ⟨L', rfl, hc, hlt, hv⟩ := hstands
    have hc' : Chain hierarchy (s.setPrev m (s.thisThreadH t)).prevH L' := by
      refine hc.congr fun m' hm' => Function.update_of_ne ?_ ..
      rintro rfl
      exact hc.not_mem hlt hm'
    exact ⟨h.owns, L', rfl, ⟨(Function.update_self ..).trans hv, hlt, hc'⟩, hv⟩
  | storeThis _ a m =>
    rw [holdStep_of_ne (by simp) (by simp)]
    obtain ⟨L', rfl, hc, -⟩ := hstands
    exact ⟨h.owns, hc, Function.update_self ..⟩
  | unlockThrow hne =>
    rw [holdStep_of_ne (by simp) (by simp)]
    exact h.move fun hp => ⟨hp.1, hp.2.1⟩
  | @unlockPass _ m heq =>
    rw [holdStep_of_ne (by simp) (by simp)]
    obtain ⟨hc, hv, hm⟩ := hstands
    obtain ⟨L', rfl⟩ := hc.head_of_eq hm (hv.symm.trans heq)
    exact ⟨h.owns, L', rfl, hc, heq⟩
  | restoreThis _ m =>
    rw [holdStep_of_ne (by simp) (by simp)]
    obtain ⟨L', rfl, hc, -⟩ := hstands
    exact ⟨h.owns, L', rfl, hc, (Function.update_self ..).trans hc.1⟩
  | release _ m =>
    obtain ⟨L', rfl, hc, hv⟩ := hstands
    have hL : holdStep t (m :: L') (t, .released m) = L' := by simp [holdStep]
    rw [hL]
    refine ⟨fun m' => ?_, hc.2.2, hv⟩
    by_cases hmm : m' = m
    · subst hmm
      simp [Shared.setMut, hc.2.2.not_mem hc.2.1]
    · have howns := h.owns m'
      simp only [List.mem_cons, hmm, false_or] at howns
      simpa [Shared.setMut, Function.update_of_ne hmm] using howns

end Steps

/-! ## Runs -/

section Runs

variable [DecidableEq Tid] [DecidableEq M] {hierarchy : M → α} {t : Tid}
  {c c' : Config Tid (Pc M) (Shared Tid M α)} {L : Tid → List M} {tr : List (Tid × Lab M)}
  {e : Tid × Lab M}

/-- The assertions of all threads, of which each thread `t` holds `L t`. -/
def Bookkeeping (hierarchy : M → α) (L : Tid → List M)
    (c : Config Tid (Pc M) (Shared Tid M α)) : Prop :=
  ∀ t, ThreadInv hierarchy c.sh t (L t) (c.pc t)

/-- One step. -/
theorem Bookkeeping.step (h : Bookkeeping hierarchy L c) (hg : UnlocksOwned c e)
    (hs : Step (MutexStep hierarchy) c e c') :
    Bookkeeping hierarchy (fun t => holdStep t (L t) e) c' := by
  obtain ⟨hs⟩ := hs
  rename_i t l p' s'
  intro u
  by_cases hut : u = t
  · subst hut
    simpa using step_own (h u) hg hs
  · have hL : holdStep u (L u) (t, l) = L u := by simp [holdStep, Ne.symm hut]
    simpa [Function.update_of_ne hut, hL] using (h u).frame (step_frame (h t) hut hs)

omit [LinearOrder α] [OrderTop α] in
/-- INTERNAL: one more step in the record. -/
theorem held_snoc (tr : List (Tid × Lab M)) (e : Tid × Lab M) (t : Tid) :
    held (tr ++ [e]) t = holdStep t (held tr t) e := by
  simp [held]

/-- The assertions hold in every run, for the mutexes that have been acquired and not
released. -/
theorem bookkeeping_run [Zero α]
    (h : Run (MutexStep hierarchy) UnlocksOwned (start Tid M α) tr c) :
    Bookkeeping hierarchy (held tr) c := by
  refine h.trace_invariant (fun tr c => Bookkeeping hierarchy (held tr) c) ?_ ?_
  · exact fun t => ⟨fun m => by simp [held, start], trivial, rfl⟩
  · intro tr c e c' _ hc hg hs
    have hheld : held (tr ++ [e]) = fun t => holdStep t (held tr t) e :=
      funext fun t => held_snoc tr e t
    rw [hheld]
    exact hc.step hg hs

end Runs

end UbuntuProjects.HierarchyMutex
