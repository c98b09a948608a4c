import Mathlib.Logic.Function.Basic
import Mathlib.Data.List.Basic
import Mathlib.Data.Set.Finite.Basic

/-!
# Multithreaded programs over a shared state

A program is given by the atomic steps of one thread: from a control point and a
shared state to the next control point and shared state, under a label. Every thread
runs the same program; a configuration holds the control point of each thread and the
shared state, and a run interleaves the threads' steps in any order
(`Run`). A guard restricts the steps a run may take, for instance to the calls a
client makes.

Invariants of all runs are proved one thread at a time (`Outline`): a shared assertion,
one assertion for each control point, and a ghost value that both may mention. A step
has to re-establish the shared assertion and the assertion of the thread that takes it,
and must not disturb the assertions of the other threads.
-/

set_option autoImplicit false

namespace Concurrency

/-- The atomic steps of one thread of a program. -/
abbrev Program (Tid Pc Sh Lab : Type) : Type :=
  Tid → Pc → Sh → Lab → Pc → Sh → Prop

/-- The control points of all threads and the state they share. -/
structure Config (Tid Pc Sh : Type) where
  pc : Tid → Pc
  sh : Sh

variable {Tid Pc Sh Lab : Type} [DecidableEq Tid]

/-- One thread takes one step; the control points of the others stay. -/
inductive Step (P : Program Tid Pc Sh Lab) :
    Config Tid Pc Sh → Tid × Lab → Config Tid Pc Sh → Prop
  | mk {c : Config Tid Pc Sh} {t : Tid} {l : Lab} {p' : Pc} {s' : Sh} :
      P t (c.pc t) c.sh l p' s' → Step P c (t, l) ⟨Function.update c.pc t p', s'⟩

/-- Every step is allowed. -/
def anyStep : Config Tid Pc Sh → Tid × Lab → Prop := fun _ _ => True

/-- The runs of the program from `c₀` whose steps all satisfy the guard `G`, with the
labels of the steps in order. -/
inductive Run (P : Program Tid Pc Sh Lab) (G : Config Tid Pc Sh → Tid × Lab → Prop)
    (c₀ : Config Tid Pc Sh) : List (Tid × Lab) → Config Tid Pc Sh → Prop
  | nil : Run P G c₀ [] c₀
  | step {tr : List (Tid × Lab)} {c c' : Config Tid Pc Sh} {e : Tid × Lab} :
      Run P G c₀ tr c → G c e → Step P c e c' → Run P G c₀ (tr ++ [e]) c'

section Runs

variable {P : Program Tid Pc Sh Lab} {G G' : Config Tid Pc Sh → Tid × Lab → Prop}
  {c₀ c : Config Tid Pc Sh} {tr : List (Tid × Lab)}

/-- A weaker guard allows every run of a stronger one. -/
theorem Run.mono (hG : ∀ c e, G c e → G' c e) (h : Run P G c₀ tr c) : Run P G' c₀ tr c := by
  induction h with
  | nil => exact .nil
  | step _ hg hs ih => exact .step ih (hG _ _ hg) hs

/-- Forgetting the guard. -/
theorem Run.any (h : Run P G c₀ tr c) : Run P anyStep c₀ tr c :=
  h.mono fun _ _ _ => trivial

/-- Every step of a run is taken in a configuration that some run reaches. -/
theorem Run.reached (h : Run P G c₀ tr c) :
    Run P (fun c e => G c e ∧ ∃ tr, Run P G c₀ tr c) c₀ tr c := by
  induction h with
  | nil => exact .nil
  | step hr hg hs ih => exact .step ih ⟨hg, _, hr⟩ hs

/-- A program whose steps are steps of another one, in the configurations that the other one
reaches, has no other runs. -/
theorem Run.replace {P' : Program Tid Pc Sh Lab}
    (hP : ∀ tr c t l p' s', Run P' G c₀ tr c → P t (c.pc t) c.sh l p' s' →
      P' t (c.pc t) c.sh l p' s') (h : Run P G c₀ tr c) : Run P' G c₀ tr c := by
  induction h with
  | nil => exact .nil
  | step _ hg hs ih =>
    obtain ⟨hs⟩ := hs
    exact .step ih hg (.mk (hP _ _ _ _ _ _ ih hs))

/-- The invariant rule: what holds initially and is kept by every allowed step holds in
every configuration of every run. -/
theorem Run.invariant (I : Config Tid Pc Sh → Prop) (h₀ : I c₀)
    (hstep : ∀ c e c', I c → G c e → Step P c e c' → I c') (h : Run P G c₀ tr c) : I c := by
  induction h with
  | nil => exact h₀
  | step _ hg hs ih => exact hstep _ _ _ ih hg hs

/-- The invariant rule for properties of the trace together with the configuration. -/
theorem Run.trace_invariant (I : List (Tid × Lab) → Config Tid Pc Sh → Prop) (h₀ : I [] c₀)
    (hstep : ∀ tr c e c', Run P G c₀ tr c → I tr c → G c e → Step P c e c' → I (tr ++ [e]) c')
    (h : Run P G c₀ tr c) : I tr c := by
  induction h with
  | nil => exact h₀
  | step hr hg hs ih => exact hstep _ _ _ _ hr ih hg hs

/-- A run moves finitely many threads. -/
theorem Run.finite_moved (h : Run P G c₀ tr c) : {t | c.pc t ≠ c₀.pc t}.Finite := by
  refine h.invariant (fun c => {t | c.pc t ≠ c₀.pc t}.Finite) (by simp) ?_
  intro c e c' hfin hg hs
  obtain ⟨hP⟩ := hs
  rename_i t l p' s'
  refine (hfin.insert t).subset fun u hu => ?_
  by_cases hut : u = t
  · exact .inl hut
  · have hpc : Function.update c.pc t p' u = c.pc u := Function.update_of_ne hut ..
    exact .inr fun heq => hu (hpc.trans heq)

/-- A run from where another one has arrived. -/
theorem Run.trans {c' : Config Tid Pc Sh} {tr' : List (Tid × Lab)} (h : Run P G c₀ tr c)
    (h' : Run P G c tr' c') : Run P G c₀ (tr ++ tr') c' := by
  induction h' with
  | nil =>
    rw [List.append_nil]
    exact h
  | step _ hg hs ih =>
    rw [← List.append_assoc]
    exact ih.step hg hs

/-- A run in which one thread steps alone leaves the others where they are. -/
theorem Run.pc_of_alone {t u : Tid} (hG : ∀ c e, G c e → e.1 = t) (hu : u ≠ t)
    (h : Run P G c₀ tr c) : c.pc u = c₀.pc u := by
  apply h.invariant (fun c => c.pc u = c₀.pc u) rfl
  intro c e c' hc hg hs
  obtain ⟨hP⟩ := hs
  rename_i t' l p' s'
  have ht : t' = t := hG _ _ hg
  show Function.update c.pc t' p' u = _
  rw [Function.update_of_ne (ht ▸ hu)]
  exact hc

/-- Starting a run where another one, whatever its guard, has arrived. -/
theorem Run.onward (_ : Run P G' c₀ tr c) : Run P G c [] c :=
  .nil

/-- One more step taken by thread `t`. -/
theorem Run.snoc {l : Lab} {p' : Pc} {s' : Sh} (h : Run P G c₀ tr c) (t : Tid)
    (hG : G c (t, l)) (hP : P t (c.pc t) c.sh l p' s') :
    Run P G c₀ (tr ++ [(t, l)]) ⟨Function.update c.pc t p', s'⟩ :=
  .step h hG (.mk hP)

end Runs

/-- The configurations that a run passes from `c₁` on, in order, `c₁` and the last one
among them. -/
inductive Passes (P : Program Tid Pc Sh Lab) (G : Config Tid Pc Sh → Tid × Lab → Prop)
    (c₁ : Config Tid Pc Sh) : List (Config Tid Pc Sh) → Config Tid Pc Sh → Prop
  | nil : Passes P G c₁ [c₁] c₁
  | step {cs : List (Config Tid Pc Sh)} {c c' : Config Tid Pc Sh} {e : Tid × Lab} :
      Passes P G c₁ cs c → G c e → Step P c e c' → Passes P G c₁ (cs ++ [c']) c'

section Passing

variable {P : Program Tid Pc Sh Lab} {G : Config Tid Pc Sh → Tid × Lab → Prop}
  {c₁ c : Config Tid Pc Sh} {cs : List (Config Tid Pc Sh)}

/-- Starting to record what a run passes from now on. -/
theorem Run.passes {G' : Config Tid Pc Sh → Tid × Lab → Prop} {c₀ : Config Tid Pc Sh}
    {tr : List (Tid × Lab)} (_ : Run P G c₀ tr c) : Passes P G' c [c] c :=
  .nil

/-- The last configuration is among those passed. -/
theorem Passes.last_mem (h : Passes P G c₁ cs c) : c ∈ cs := by
  cases h with
  | nil => exact List.mem_singleton_self _
  | step _ _ _ => exact List.mem_append_right _ (List.mem_singleton_self _)

/-- A weaker guard allows every passage of a stronger one. -/
theorem Passes.mono {G' : Config Tid Pc Sh → Tid × Lab → Prop} (hG : ∀ c e, G c e → G' c e)
    (h : Passes P G c₁ cs c) : Passes P G' c₁ cs c := by
  induction h with
  | nil => exact .nil
  | step _ hg hs ih => exact .step ih (hG _ _ hg) hs

/-- All configurations passed but the last one have been left by an allowed step. -/
theorem Passes.left (h : Passes P G c₁ cs c) :
    ∃ cs₀, cs = cs₀ ++ [c] ∧ ∀ d ∈ cs₀, ∃ e, G d e := by
  induction h with
  | nil => exact ⟨[], rfl, by simp⟩
  | @step cs c c' e _ hg _ ih =>
    obtain ⟨cs₀, rfl, hleft⟩ := ih
    refine ⟨cs₀ ++ [c], rfl, fun d hd => ?_⟩
    rcases List.mem_append.mp hd with hd | hd
    · exact hleft d hd
    · rw [List.mem_singleton.mp hd]
      exact ⟨e, hg⟩

/-- The last configuration is the last one passed. -/
theorem Passes.getLast? (h : Passes P G c₁ cs c) : cs.getLast? = some c := by
  obtain ⟨cs₀, rfl, -⟩ := h.left
  exact List.getLast?_concat

/-- The invariant rule for properties of the configurations passed. -/
theorem Passes.invariant (I : List (Config Tid Pc Sh) → Config Tid Pc Sh → Prop)
    (h₁ : I [c₁] c₁)
    (hstep : ∀ cs c e c', Passes P G c₁ cs c → I cs c → G c e → Step P c e c' →
      I (cs ++ [c']) c')
    (h : Passes P G c₁ cs c) : I cs c := by
  induction h with
  | nil => exact h₁
  | step hp hg hs ih => exact hstep _ _ _ _ hp ih hg hs

/-- One more step taken by thread `t`. -/
theorem Passes.snoc {l : Lab} {p' : Pc} {s' : Sh} (h : Passes P G c₁ cs c) (t : Tid)
    (hG : G c (t, l)) (hP : P t (c.pc t) c.sh l p' s') :
    Passes P G c₁ (cs ++ [⟨Function.update c.pc t p', s'⟩]) ⟨Function.update c.pc t p', s'⟩ :=
  .step h hG (.mk hP)

end Passing

omit [DecidableEq Tid] in
/-- Deadlock freedom by a bounded order: if whoever is unfinished can step or waits for
someone unfinished of higher rank, then someone unfinished can step. -/
theorem exists_canStep {Unfinished CanStep : Tid → Prop} (rank : Tid → ℕ) (bound : ℕ)
    (hbound : ∀ t, rank t ≤ bound)
    (hwait : ∀ t, Unfinished t → CanStep t ∨ ∃ u, Unfinished u ∧ rank t < rank u) {t : Tid}
    (ht : Unfinished t) : ∃ u, Unfinished u ∧ CanStep u := by
  induction hd : bound - rank t using Nat.strongRecOn generalizing t with
  | ind d ih =>
    rcases hwait t ht with hstep | ⟨u, hu, hlt⟩
    · exact ⟨t, ht, hstep⟩
    · have hu' := hbound u
      exact ih (bound - rank u) (by omega) hu rfl

/-- A proof outline: an assertion about the shared state and one for each control point
of each thread. All may mention a ghost value, which the steps may change. -/
structure Outline (Tid Pc Sh γ : Type) where
  shared : γ → Sh → Prop
  thread : γ → Tid → Pc → Sh → Prop

/-- The outline holds of a configuration: for one ghost value the shared assertion and
the assertions at all threads' control points hold. -/
def Outline.Holds {γ : Type} (O : Outline Tid Pc Sh γ) (c : Config Tid Pc Sh) : Prop :=
  ∃ g, O.shared g c.sh ∧ ∀ t, O.thread g t (c.pc t) c.sh

/-- A step of thread `t` is sound for the outline: it keeps the shared assertion,
establishes `t`'s next assertion and keeps every assertion of every other thread. -/
def Outline.Sound {γ : Type} (O : Outline Tid Pc Sh γ) (t : Tid) (p : Pc) (s : Sh) (p' : Pc)
    (s' : Sh) : Prop :=
  ∀ g, O.shared g s → O.thread g t p s →
    ∃ g', O.shared g' s' ∧ O.thread g' t p' s' ∧
      ∀ u, u ≠ t → ∀ q, O.thread g u q s → O.thread g' u q s'

/-- The rule of Owicki and Gries: an outline that holds initially and for which every
allowed step out of a configuration some run reaches is sound holds in every
configuration of every run. -/
theorem Outline.holds_run {γ : Type} (O : Outline Tid Pc Sh γ) {P : Program Tid Pc Sh Lab}
    {G : Config Tid Pc Sh → Tid × Lab → Prop} {c₀ c : Config Tid Pc Sh}
    {tr : List (Tid × Lab)} (h₀ : O.Holds c₀)
    (hsound : ∀ tr c t l p' s', Run P G c₀ tr c → G c (t, l) → P t (c.pc t) c.sh l p' s' →
      O.Sound t (c.pc t) c.sh p' s')
    (h : Run P G c₀ tr c) : O.Holds c := by
  refine h.trace_invariant (fun _ => O.Holds) h₀ ?_
  rintro tr c ⟨t, l⟩ c' hr ⟨g, hsh, hloc⟩ hg hs
  cases hs with
  | mk hP =>
    obtain ⟨g', hsh', hown, hother⟩ := hsound _ _ _ _ _ _ hr hg hP g hsh (hloc t)
    refine ⟨g', hsh', fun u => ?_⟩
    by_cases hu : u = t
    · subst hu
      simpa using hown
    · simpa [Function.update_of_ne hu] using hother u hu _ (hloc u)

end Concurrency
