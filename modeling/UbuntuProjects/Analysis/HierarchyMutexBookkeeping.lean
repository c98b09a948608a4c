import Mathlib.Order.Bounds.Basic
import Mathlib.Data.ZMod.Defs
import UbuntuProjects.Analysis.HierarchyMutexInvariant

/-!
# `hierarchy_mutex`: the bookkeeping is exact

The value of a thread is the smallest hierarchy among the mutexes that it holds, whatever
the other threads do, because these mutexes are a chain (`ThreadInv.chain`). The other
threads leave the value alone during a call, so a call of `lock` or `try_lock` throws
exactly when the hierarchy is not below the value that the thread had when it made the
call, and `unlock` exactly when the mutex is not the one acquired last (`Op.track`). A call
that fails has taken no step that changes anything shared (`Quiet`).
-/

set_option autoImplicit false

namespace UbuntuProjects.HierarchyMutex

open Concurrency (Config Run Step Passes Program)

variable {Tid M α : Type} [LinearOrder α] [OrderTop α]

/-! ## The smallest hierarchy -/

section Smallest

variable {hierarchy : M → α} {s : Shared Tid M α} {t : Tid} {L : List M} {p : Pc M}

/-- The mutex that a thread is taking or releasing. -/
def Pc.changing : Pc M → Option M
  | .storePrev _ m | .storeThis _ m | .release m => some m
  | _ => none

/-- Thread `t` holds the mutex, and is not just taking or releasing it. -/
def Holds (c : Config Tid (Pc M) (Shared Tid M α)) (t : Tid) (m : M) : Prop :=
  c.sh.mut_ m = some t ∧ (c.pc t).changing ≠ some m

/-- INTERNAL: the mutexes that the thread is not just taking or releasing are a chain, and
the thread's value is its lowest hierarchy. -/
theorem ThreadInv.chain (h : ThreadInv hierarchy s t L p) :
    ∃ L', Chain hierarchy s.prevH L' ∧ s.thisThreadH t = lowest hierarchy L' ∧
      ∀ m, m ∈ L' ↔ s.mut_ m = some t ∧ p.changing ≠ some m := by
  have hstands := h.stands
  have hall : p.changing = none →
      ∀ m, m ∈ L ↔ s.mut_ m = some t ∧ p.changing ≠ some m := by
    intro hp m
    simp [hp, h.owns m]
  have htail : ∀ {m : M} {L' : List M}, L = m :: L' → m ∉ L' → p.changing = some m →
      ∀ m', m' ∈ L' ↔ s.mut_ m' = some t ∧ p.changing ≠ some m' := by
    intro m L' hL hm hp m'
    rw [← h.owns m', hL, hp]
    constructor
    · intro hm'
      refine ⟨List.mem_cons_of_mem _ hm', fun heq => ?_⟩
      obtain rfl : m = m' := Option.some.inj heq
      exact hm hm'
    · rintro ⟨hm', hne⟩
      rcases List.mem_cons.mp hm' with rfl | hm'
      · exact absurd rfl hne
      · exact hm'
  cases p with
  | storePrev a m =>
    obtain ⟨L', hL, hc, hlt, hv⟩ := hstands
    exact ⟨L', hc, hv, htail hL (hc.not_mem hlt) rfl⟩
  | storeThis a m | release m =>
    obtain ⟨L', hL, hc, hv⟩ := hstands
    rw [hL] at hc
    exact ⟨L', hc.2.2, hv, htail hL (hc.2.2.not_mem hc.2.1) rfl⟩
  | restoreThis m =>
    obtain ⟨L', hL, hc, hv⟩ := hstands
    exact ⟨L, hc, hv.trans (by rw [hL]; rfl), hall rfl⟩
  | take a m | unlockCheck m => exact ⟨L, hstands.1, hstands.2.1, hall rfl⟩
  | idle | returning r | check a m => exact ⟨L, hstands.1, hstands.2, hall rfl⟩

/-- INTERNAL: the lowest hierarchy of a chain is the smallest one in it. -/
theorem Chain.isLeast {prevH : M → α} (h : Chain hierarchy prevH L) (hne : L ≠ []) :
    IsLeast {x | ∃ m ∈ L, hierarchy m = x} (lowest hierarchy L) := by
  refine ⟨?_, ?_⟩
  · cases L with
    | nil => exact absurd rfl hne
    | cons m L' => exact ⟨m, List.mem_cons_self, rfl⟩
  · rintro x ⟨m, hm, rfl⟩
    exact h.lowest_le hm

end Smallest

/-! ## Calls -/

section Calls

variable {hierarchy : M → α} {v : α} {op : Op M} {p p' : Pc M} {l : Lab M}
  {s s' : Shared Tid M α} {t : Tid}

/-- The call throws, or reports that the mutex was not taken. -/
def Result.fails (r : Result) : Prop := r.throws ∨ r = .bool false

/-- The control points of a call at which it has changed nothing and may fail. -/
def Pc.mayFail : Pc M → Prop
  | .check _ _ | .take _ _ | .unlockCheck _ => True
  | .returning r => r.fails
  | _ => False

/-- What the value `v` that the thread had when it made the call says of its way through
the call. -/
def Op.track (hierarchy : M → α) (v : α) : Op M → Pc M → Prop
  | .lock m, .check _ m' | .tryLock m, .check _ m' => m' = m
  | .lock m, .take _ m' | .lock m, .storePrev _ m' | .lock m, .storeThis _ m'
  | .tryLock m, .take _ m' | .tryLock m, .storePrev _ m' | .tryLock m, .storeThis _ m' =>
    m' = m ∧ ¬v ≤ hierarchy m
  | .lock m, .returning r | .tryLock m, .returning r => r.throws ↔ v ≤ hierarchy m
  | .unlock m, .unlockCheck m' => m' = m
  | .unlock m, .restoreThis m' | .unlock m, .release m' => m' = m ∧ v = hierarchy m
  | .unlock m, .returning r => r.throws ↔ v ≠ hierarchy m
  | _, _ => False

/-- The steps of thread `t` change nothing that is shared. -/
def Quiet [DecidableEq Tid] [DecidableEq M] (hierarchy : M → α) (t : Tid) :
    Program Tid (Pc M) (Shared Tid M α) (Lab M) :=
  fun u p s l p' s' => MutexStep hierarchy u p s l p' s' ∧ (u = t → s' = s)

/-- Thread `t` stays inside the call it has made, and the threads only unlock what they
own. -/
def Inside (t : Tid) (c : Config Tid (Pc M) (Shared Tid M α)) (e : Tid × Lab M) : Prop :=
  UnlocksOwned c e ∧ (e.1 = t → ∀ ev, e.2 ≠ .event ev)

variable [DecidableEq Tid] [DecidableEq M]

omit [OrderTop α] in
/-- INTERNAL: who has failed or may still fail has changed nothing. -/
theorem mayFail_step (hev : ∀ ev, l ≠ .event ev) (hp' : p'.mayFail)
    (hs : MutexStep hierarchy t p s l p' s') : p.mayFail ∧ s' = s := by
  cases hs with
  | call _ op => exact absurd rfl (hev _)
  | ret _ r => exact absurd rfl (hev _)
  | storeThis _ a m =>
    cases a with
    | lock => exact absurd hp' (by simp [Pc.mayFail, Acquire.result, Result.fails, Result.throws])
    | tryLock => exact absurd hp' (by simp [Pc.mayFail, Acquire.result, Result.fails, Result.throws])
  | release _ m => exact absurd hp' (by simp [Pc.mayFail, Result.fails, Result.throws])
  | take hfree => exact absurd hp' id
  | storePrev _ a m => exact absurd hp' id
  | unlockPass heq => exact absurd hp' id
  | restoreThis _ m => exact absurd hp' id
  | _ => exact ⟨trivial, rfl⟩

omit [OrderTop α] in
/-- INTERNAL: one step on the way through a call. -/
theorem track_step (h : op.track hierarchy v p) (hv : p.mayFail → s.thisThreadH t = v)
    (hev : ∀ ev, l ≠ .event ev) (hs : MutexStep hierarchy t p s l p' s') :
    op.track hierarchy v p' := by
  cases hs with
  | call _ op => exact absurd rfl (hev _)
  | ret _ r => exact absurd rfl (hev _)
  | @checkThrow _ a m hle =>
    rw [hv trivial] at hle
    cases op with
    | lock m₀ | tryLock m₀ =>
      obtain rfl : m = m₀ := h
      exact ⟨fun _ => hle, fun _ => trivial⟩
    | unlock m₀ => exact absurd h id
  | @checkPass _ a m hlt =>
    rw [hv trivial] at hlt
    cases op with
    | lock m₀ | tryLock m₀ =>
      obtain rfl : m = m₀ := h
      exact ⟨rfl, hlt⟩
    | unlock m₀ => exact absurd h id
  | take hfree =>
    cases op with
    | lock m₀ | tryLock m₀ => exact h
    | unlock m₀ => exact absurd h id
  | @tryFail _ m =>
    cases op with
    | lock m₀ | tryLock m₀ =>
      obtain ⟨rfl, hlt⟩ := h
      exact ⟨fun hf => absurd hf id, fun hle => absurd hle hlt⟩
    | unlock m₀ => exact absurd h id
  | storePrev _ a m =>
    cases op with
    | lock m₀ | tryLock m₀ => exact h
    | unlock m₀ => exact absurd h id
  | storeThis _ a m =>
    have hnot : ¬a.result.throws := by cases a <;> exact id
    cases op with
    | lock m₀ | tryLock m₀ =>
      obtain ⟨rfl, hlt⟩ := h
      exact ⟨fun hf => absurd hf hnot, fun hle => absurd hle hlt⟩
    | unlock m₀ => exact absurd h id
  | @unlockThrow _ m hne =>
    rw [hv trivial] at hne
    cases op with
    | lock m₀ | tryLock m₀ => exact absurd h id
    | unlock m₀ =>
      obtain rfl : m = m₀ := h
      exact ⟨fun _ => hne, fun _ => trivial⟩
  | @unlockPass _ m heq =>
    rw [hv trivial] at heq
    cases op with
    | lock m₀ | tryLock m₀ => exact absurd h id
    | unlock m₀ =>
      obtain rfl : m = m₀ := h
      exact ⟨rfl, heq⟩
  | restoreThis _ m =>
    cases op with
    | lock m₀ | tryLock m₀ => exact absurd h id
    | unlock m₀ => exact h
  | release _ m =>
    cases op with
    | lock m₀ | tryLock m₀ => exact absurd h id
    | unlock m₀ =>
      obtain ⟨rfl, heq⟩ := h
      exact ⟨fun hf => absurd hf id, fun hne => absurd heq hne⟩

variable {L : Tid → List M} {c c' : Config Tid (Pc M) (Shared Tid M α)}
  {cs : List (Config Tid (Pc M) (Shared Tid M α))}

/-- A call by thread `t`, whatever the other threads do meanwhile. -/
theorem call_run (h : Bookkeeping hierarchy L c) (hpc : c.pc t = op.entry)
    (hpass : Passes (MutexStep hierarchy) (Inside t) c cs c') :
    op.track hierarchy (c.sh.thisThreadH t) (c'.pc t) ∧
    ((c'.pc t).mayFail → Frame t c.sh c'.sh ∧ Passes (Quiet hierarchy t) (Inside t) c cs c') := by
  suffices hinv : (∃ L', Bookkeeping hierarchy L' c') ∧
      op.track hierarchy (c.sh.thisThreadH t) (c'.pc t) ∧
      ((c'.pc t).mayFail → Frame t c.sh c'.sh ∧
        Passes (Quiet hierarchy t) (Inside t) c cs c') from hinv.2
  refine hpass.invariant (fun cs c' => (∃ L', Bookkeeping hierarchy L' c') ∧
    op.track hierarchy (c.sh.thisThreadH t) (c'.pc t) ∧
    ((c'.pc t).mayFail → Frame t c.sh c'.sh ∧ Passes (Quiet hierarchy t) (Inside t) c cs c'))
    ⟨⟨L, h⟩, ?_, fun _ => ⟨Frame.refl t c.sh, .nil⟩⟩ ?_
  · rw [hpc]
    cases op <;> exact rfl
  · rintro cs c₁ e c₂ - ⟨⟨L₁, h₁⟩, htrack, hquiet⟩ hg hs
    have h₂ := h₁.step hg.1 hs
    refine ⟨⟨_, h₂⟩, ?_⟩
    obtain ⟨hs⟩ := hs
    rename_i u l p' s'
    by_cases hut : t = u
    · subst hut
      have hev := hg.2 rfl
      have hv : (c₁.pc t).mayFail → c₁.sh.thisThreadH t = c.sh.thisThreadH t := fun hf =>
        (hquiet hf).1.value
      refine ⟨by simpa using track_step htrack hv hev hs, fun hf => ?_⟩
      have hf' : p'.mayFail := by simpa using hf
      obtain ⟨hbefore, rfl⟩ := mayFail_step hev hf' hs
      obtain ⟨hframe, hpass⟩ := hquiet hbefore
      exact ⟨hframe, hpass.step hg (.mk ⟨hs, fun _ => rfl⟩)⟩
    · have hstay : Function.update c₁.pc u p' t = c₁.pc t := Function.update_of_ne hut ..
      refine ⟨by simpa [hstay] using htrack, fun hf => ?_⟩
      have hf' : (c₁.pc t).mayFail := by simpa [hstay] using hf
      obtain ⟨hframe, hpass⟩ := hquiet hf'
      refine ⟨hframe.trans (step_frame (h₁ u) hut hs), hpass.step hg (.mk ⟨hs, fun heq => ?_⟩)⟩
      exact absurd heq.symm hut

end Calls

/-! ## The bookkeeping is exact -/

/-- **The bookkeeping is exact.** In every run in which threads only unlock mutexes that they
own, for every thread: the mutexes it has acquired and not released are those it owns; its
value is the smallest hierarchy among the mutexes it holds, or the greatest value if it
holds none; a call of `lock` or `try_lock` throws exactly when the hierarchy of the mutex is
at least that value, and a call of `unlock` exactly when the mutex is not the one acquired
last; and a call that throws, or a `try_lock` that returns false, leaves the thread's value,
its mutexes and their `prev_h_` as they are, and its steps change nothing at all. -/
theorem bookkeeping_exact [DecidableEq Tid] [DecidableEq M] [Zero α] (hierarchy : M → α)
    {tr : List (Tid × Lab M)} {c : Config Tid (Pc M) (Shared Tid M α)}
    (h : Run (MutexStep hierarchy) UnlocksOwned (start Tid M α) tr c) (t : Tid) :
    (∀ m, m ∈ held tr t ↔ c.sh.mut_ m = some t) ∧
    ((∀ m, ¬Holds c t m) → c.sh.thisThreadH t = ⊤) ∧
    ((∃ m, Holds c t m) → IsLeast {x | ∃ m, Holds c t m ∧ hierarchy m = x} (c.sh.thisThreadH t)) ∧
    ∀ (op : Op M) cs c' r, c.pc t = op.entry → Passes (MutexStep hierarchy) (Inside t) c cs c' →
      c'.pc t = .returning r →
      (∀ m, op = .lock m ∨ op = .tryLock m →
        (r.throws ↔ c.sh.thisThreadH t ≤ hierarchy m)) ∧
      (∀ m, op = .unlock m → (r.throws ↔ (held tr t).head? ≠ some m)) ∧
      (r.throws ∨ r = .bool false →
        Frame t c.sh c'.sh ∧ Passes (Quiet hierarchy t) (Inside t) c cs c') := by
  have hrun := bookkeeping_run h
  have ht := hrun t
  obtain ⟨L', hchain, hvalue, hholds⟩ := ht.chain
  refine ⟨ht.owns, fun hnone => ?_, fun hsome => ?_, fun op cs c' r hpc hpass hret => ?_⟩
  · have hnil : L' = [] :=
      List.eq_nil_iff_forall_not_mem.mpr fun m hm => hnone m ((hholds m).mp hm)
    rw [hvalue, hnil]
    rfl
  · obtain ⟨m, hm⟩ := hsome
    have hset : {x | ∃ m, Holds c t m ∧ hierarchy m = x} = {x | ∃ m ∈ L', hierarchy m = x} := by
      ext x
      exact ⟨fun ⟨m, hm, hx⟩ => ⟨m, (hholds m).mpr hm, hx⟩,
        fun ⟨m, hm, hx⟩ => ⟨m, (hholds m).mp hm, hx⟩⟩
    rw [hset, hvalue]
    exact hchain.isLeast (List.ne_nil_of_mem ((hholds m).mpr hm))
  · obtain ⟨htrack, hquiet⟩ := call_run hrun hpc hpass
    rw [hret] at htrack hquiet
    refine ⟨?_, ?_, hquiet⟩
    · rintro m (rfl | rfl)
      · exact htrack
      · exact htrack
    · rintro m rfl
      have hstands := ht.stands
      rw [hpc] at hstands
      obtain ⟨hc, hv, hm⟩ := hstands
      have hthrow : r.throws ↔ c.sh.thisThreadH t ≠ hierarchy m := htrack
      rw [hthrow, hv]
      refine not_congr ⟨fun heq => ?_, fun hhead => ?_⟩
      · obtain ⟨L'', hL⟩ := hc.head_of_eq hm heq
        rw [hL]
        rfl
      · obtain ⟨L'', hL⟩ := List.head?_eq_some_iff.mp hhead
        rw [hL]
        rfl

/-- A thread that has locked mutexes of hierarchies 1000 and 500 tries to unlock the first
one. -/
theorem bookkeeping_exact_order :
    ∃ (tr : List (Unit × Lab (Fin 2000)))
      (c c' : Config Unit (Pc (Fin 2000)) (Shared Unit (Fin 2000) (Fin 2000)))
      (r : Result),
      Run (MutexStep id) UnlocksOwned (start Unit (Fin 2000) (Fin 2000)) tr c ∧
      c.pc () = .unlockCheck 1000 ∧ held tr () = [500, 1000] ∧ c'.pc () = .returning r ∧
      (r.throws ↔ (held tr ()).head? ≠ some 1000) ∧ (r.throws → Frame () c.sh c'.sh) := by
  have h₀ : Run (MutexStep id) UnlocksOwned (start Unit (Fin 2000) (Fin 2000)) [] _ := .nil
  have h₁ := h₀.snoc () (fun m h => by cases h) (.call _ (.lock 1000))
  have h₂ := h₁.snoc () (fun m h => by cases h) (.checkPass (by decide))
  have h₃ := h₂.snoc () (fun m h => by cases h) (.take rfl)
  have h₄ := h₃.snoc () (fun m h => by cases h) (.storePrev _ _ _)
  have h₅ := h₄.snoc () (fun m h => by cases h) (.storeThis _ _ _)
  have h₆ := h₅.snoc () (fun m h => by cases h) (.ret _ _)
  have h₇ := h₆.snoc () (fun m h => by cases h) (.call _ (.tryLock 500))
  have h₈ := h₇.snoc () (fun m h => by cases h) (.checkPass (by decide))
  have h₉ := h₈.snoc () (fun m h => by cases h) (.take (by decide))
  have h₁₀ := h₉.snoc () (fun m h => by cases h) (.storePrev _ _ _)
  have h₁₁ := h₁₀.snoc () (fun m h => by cases h) (.storeThis _ _ _)
  have h₁₂ := h₁₁.snoc () (fun m h => by cases h) (.ret _ _)
  have h₁₃ := h₁₂.snoc () (fun m h => by cases h; decide) (.call _ (.unlock 1000))
  have k₀ : Passes (MutexStep id) (Inside ()) _ _ _ := h₁₃.passes
  have k₁ := k₀.snoc () ⟨fun m h => (by cases h), fun _ ev h => (by cases h)⟩
    (.unlockThrow (by decide))
  have hcall := (bookkeeping_exact id h₁₃ ()).2.2.2 (.unlock 1000) _ _ _ rfl k₁ rfl
  exact ⟨_, _, _, _, h₁₃, rfl, by decide, rfl, hcall.2.1 1000 rfl,
    fun hf => (hcall.2.2 (.inl hf)).1⟩

end UbuntuProjects.HierarchyMutex
