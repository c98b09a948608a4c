import Mathlib.Data.List.Basic

/-!
# Processes and what the kernel keeps for them

Processes that share nothing but what the kernel keeps. A process is its number in the table
of all of them; a step of one may read and change what the kernel keeps, moves the process on
and adds the processes it forks at the end of the table. After each step the kernel settles
what depends on all processes together, such as what nobody refers to any more.
-/

set_option autoImplicit false

namespace Concurrency

/-- The steps of one process: its number, what the kernel keeps and where the process is, the
label, and both afterwards with the processes it forks. -/
abbrev ProcessProgram (Kern Proc Lab : Type) : Type :=
  ℕ → Kern → Proc → Lab → Kern → Proc → List Proc → Prop

/-- What the kernel keeps, and the processes. -/
structure Processes (Kern Proc : Type) where
  kern : Kern
  procs : List Proc

variable {Kern Proc Lab : Type}

/-- One process takes one step, and the kernel settles. -/
inductive ProcessStep (P : ProcessProgram Kern Proc Lab)
    (settle : List Proc → Kern → Kern → Prop) :
    Processes Kern Proc → ℕ × Lab → Processes Kern Proc → Prop
  | mk {k k₁ k' : Kern} {ps new : List Proc} {i : ℕ} {p p' : Proc} {l : Lab} :
      ps[i]? = some p → P i k p l k₁ p' new → settle (ps.set i p' ++ new) k₁ k' →
      ProcessStep P settle ⟨k, ps⟩ (i, l) ⟨k', ps.set i p' ++ new⟩

/-- The runs from `s₀`, with the labels in order. -/
inductive ProcessRun (P : ProcessProgram Kern Proc Lab)
    (settle : List Proc → Kern → Kern → Prop) (s₀ : Processes Kern Proc) :
    List (ℕ × Lab) → Processes Kern Proc → Prop
  | nil : ProcessRun P settle s₀ [] s₀
  | step {tr : List (ℕ × Lab)} {s s' : Processes Kern Proc} {e : ℕ × Lab} :
      ProcessRun P settle s₀ tr s → ProcessStep P settle s e s' →
        ProcessRun P settle s₀ (tr ++ [e]) s'

/-- A process of the table after a step is the one that has stepped, one that has not, or one
that has been forked. -/
theorem getElem?_stepped {ps new : List Proc} {i j : ℕ} {p p' q : Proc} (hp : ps[i]? = some p)
    (h : (ps.set i p' ++ new)[j]? = some q) :
    j = i ∧ q = p' ∨ j ≠ i ∧ ps[j]? = some q ∨
      ps.length ≤ j ∧ new[j - ps.length]? = some q := by
  obtain ⟨hlt, -⟩ := List.getElem?_eq_some_iff.mp hp
  by_cases hj : j < ps.length
  · rw [List.getElem?_append_left (by rwa [List.length_set])] at h
    by_cases hji : j = i
    · subst hji
      rw [List.getElem?_set_self hlt] at h
      exact .inl ⟨rfl, (Option.some.inj h).symm⟩
    · rw [List.getElem?_set_ne (Ne.symm hji)] at h
      exact .inr (.inl ⟨hji, h⟩)
  · rw [List.getElem?_append_right (by rw [List.length_set]; omega), List.length_set] at h
    exact .inr (.inr ⟨by omega, h⟩)

/-- The process that has stepped. -/
theorem getElem?_stepped_self {ps : List Proc} {i : ℕ} {p : Proc} (hp : ps[i]? = some p)
    (p' : Proc) (new : List Proc) : (ps.set i p' ++ new)[i]? = some p' := by
  obtain ⟨hlt, -⟩ := List.getElem?_eq_some_iff.mp hp
  rw [List.getElem?_append_left (by rwa [List.length_set]), List.getElem?_set_self hlt]

/-- A process that has not stepped. -/
theorem getElem?_stepped_of_ne {ps : List Proc} {i j : ℕ} {q : Proc} (hq : ps[j]? = some q)
    (hne : j ≠ i) (p' : Proc) (new : List Proc) : (ps.set i p' ++ new)[j]? = some q := by
  obtain ⟨hlt, -⟩ := List.getElem?_eq_some_iff.mp hq
  rw [List.getElem?_append_left (by rwa [List.length_set]), List.getElem?_set_ne (Ne.symm hne)]
  exact hq

section Runs

variable {P : ProcessProgram Kern Proc Lab} {settle : List Proc → Kern → Kern → Prop}
  {s₀ s : Processes Kern Proc} {tr : List (ℕ × Lab)}

/-- The invariant rule, for properties of the trace together with the processes. -/
theorem ProcessRun.trace_invariant (I : List (ℕ × Lab) → Processes Kern Proc → Prop)
    (h₀ : I [] s₀)
    (hstep : ∀ tr s e s', ProcessRun P settle s₀ tr s → I tr s → ProcessStep P settle s e s' →
      I (tr ++ [e]) s')
    (h : ProcessRun P settle s₀ tr s) : I tr s := by
  induction h with
  | nil => exact h₀
  | step hr hs ih => exact hstep _ _ _ _ hr ih hs

/-- The processes that have taken a step are in the table. -/
theorem ProcessRun.index_lt (h : ProcessRun P settle s₀ tr s) :
    ∀ e ∈ tr, e.1 < s.procs.length := by
  refine h.trace_invariant (fun tr s => ∀ e ∈ tr, e.1 < s.procs.length)
    (fun e he => absurd he List.not_mem_nil) ?_
  rintro tr s - s' - hI @⟨_, _, _, ps, new, i, _, p', _, hp, -, -⟩ e he
  show e.1 < (ps.set i p' ++ new).length
  rw [List.length_append, List.length_set]
  rcases List.mem_append.mp he with he | he
  · exact Nat.lt_add_right _ (hI e he)
  · rw [List.mem_singleton.mp he]
    exact Nat.lt_add_right _ (List.getElem?_eq_some_iff.mp hp).1

/-- The invariant rule, for one process along a run. -/
theorem ProcessRun.follow {i : ℕ} {p₀ : Proc} (I : List (ℕ × Lab) → Proc → Prop)
    (hp₀ : s₀.procs[i]? = some p₀) (h₀ : I [] p₀)
    (hself : ∀ {tr k p l k' p' new}, I tr p → P i k p l k' p' new → I (tr ++ [(i, l)]) p')
    (hother : ∀ {tr p e}, I tr p → e.1 ≠ i → I (tr ++ [e]) p)
    (h : ProcessRun P settle s₀ tr s) : ∃ p, s.procs[i]? = some p ∧ I tr p := by
  induction h with
  | nil => exact ⟨p₀, hp₀, h₀⟩
  | step _ hs ih =>
    obtain ⟨q, hq, hI⟩ := ih
    obtain @⟨_, _, _, _, _, j, _, _, _, hp, hP, -⟩ := hs
    by_cases hij : i = j
    · subst hij
      obtain rfl := Option.some.inj (hp.symm.trans hq)
      exact ⟨_, getElem?_stepped_self hp _ _, hself hI hP⟩
    · exact ⟨q, getElem?_stepped_of_ne hq hij _ _, hother hI (Ne.symm hij)⟩

section Next

variable {l : Lab} {k k' : Kern} {p p' : Proc} {new : List Proc}

/-- A step that process `i` may take after the run. -/
theorem ProcessRun.next (_ : ProcessRun P settle s₀ tr s) (i : ℕ) (hp : s.procs[i]? = some p)
    (hP : P i s.kern p l k p' new) (hsettle : settle (s.procs.set i p' ++ new) k k') :
    ProcessStep P settle s (i, l) ⟨k', s.procs.set i p' ++ new⟩ :=
  .mk hp hP hsettle

/-- One more step taken by process `i`. -/
theorem ProcessRun.snoc (h : ProcessRun P settle s₀ tr s) (i : ℕ) (hp : s.procs[i]? = some p)
    (hP : P i s.kern p l k p' new) (hsettle : settle (s.procs.set i p' ++ new) k k') :
    ProcessRun P settle s₀ (tr ++ [(i, l)]) ⟨k', s.procs.set i p' ++ new⟩ :=
  .step h (h.next i hp hP hsettle)

/-- The run that goes on after a step. -/
theorem ProcessStep.nil {e : ℕ × Lab} {s' : Processes Kern Proc}
    (_ : ProcessStep P settle s e s') : ProcessRun P settle s' [] s' :=
  .nil

end Next

end Runs

end Concurrency
