import UbuntuProjects.Concurrency.Program
import Mathlib.Data.Finset.Insert
import Mathlib.Data.Set.Finite.Basic

/-!
# Bringing a program to rest

A program is free of deadlocks when every run can be continued until every thread has come
to rest. Such a continuation is put together from threads that step alone (`Solo`), one
after another: if any thread that is not at rest can be brought there without disturbing
those that are, all of them can (`exists_run_settled`).
-/

set_option autoImplicit false

namespace Concurrency

variable {Tid Pc Sh Lab : Type}

/-- Thread `t`, stepping alone, comes from one control point and shared state to another. The
steps it may take are restricted by `ok`. -/
inductive Solo (P : Program Tid Pc Sh Lab) (ok : Pc → Sh → Lab → Prop) (t : Tid) :
    Pc → Sh → Pc → Sh → Prop
  | refl (p : Pc) (s : Sh) : Solo P ok t p s p s
  | step {p p' p'' : Pc} {s s' s'' : Sh} {l : Lab} : P t p s l p' s' → ok p s l →
      Solo P ok t p' s' p'' s'' → Solo P ok t p s p'' s''

section Alone

variable {P : Program Tid Pc Sh Lab} {ok : Pc → Sh → Lab → Prop} {t : Tid} {p p' p'' : Pc}
  {s s' s'' : Sh}

theorem Solo.trans (h : Solo P ok t p s p' s') (h' : Solo P ok t p' s' p'' s'') :
    Solo P ok t p s p'' s'' := by
  induction h with
  | refl => exact h'
  | step hP hok _ ih => exact .step hP hok (ih h')

/-- One more step. -/
theorem Solo.snoc {l : Lab} (h : Solo P ok t p s p' s') (hP : P t p' s' l p'' s'')
    (hok : ok p' s' l) : Solo P ok t p s p'' s'' :=
  h.trans (.step hP hok (.refl _ _))

/-- What every step of the thread keeps is kept. -/
theorem Solo.invariant (I : Pc → Sh → Prop)
    (hstep : ∀ p s l p' s', I p s → ok p s l → P t p s l p' s' → I p' s') (h₀ : I p s)
    (h : Solo P ok t p s p' s') : I p' s' := by
  induction h with
  | refl => exact h₀
  | step hP hok _ ih => exact ih (hstep _ _ _ _ _ h₀ hok hP)

/-- The program runs while one of its threads steps alone. -/
theorem Solo.run [DecidableEq Tid] {G : Config Tid Pc Sh → Tid × Lab → Prop}
    {c : Config Tid Pc Sh} (hG : ∀ (c : Config Tid Pc Sh) l, ok (c.pc t) c.sh l → G c (t, l))
    (h : Solo P ok t (c.pc t) c.sh p' s') :
    ∃ tr, Run P (fun c e => G c e ∧ e.1 = t) c tr ⟨Function.update c.pc t p', s'⟩ := by
  generalize hp : c.pc t = p at h
  generalize hs : c.sh = s at h
  induction h generalizing c with
  | refl =>
    subst hp hs
    refine ⟨[], ?_⟩
    rw [Function.update_eq_self]
    exact .nil
  | @step p p₁ p₂ s s₁ s₂ l hP hok _ ih =>
    subst hp hs
    obtain ⟨tr, hr⟩ := ih (c := ⟨Function.update c.pc t p₁, s₁⟩) (Function.update_self ..) rfl
    simp only [Function.update_idem] at hr
    exact ⟨_, (Run.nil.snoc t ⟨hG c l hok, rfl⟩ hP).trans hr⟩

end Alone

section Weakening

variable [DecidableEq Tid] {P P' : Program Tid Pc Sh Lab}
  {G : Config Tid Pc Sh → Tid × Lab → Prop} {c₀ c c' : Config Tid Pc Sh} {e : Tid × Lab}
  {tr : List (Tid × Lab)}

/-- A step of a program is one of every program that allows more. -/
theorem Step.weaken (hP : ∀ t p s l p' s', P t p s l p' s' → P' t p s l p' s')
    (h : Step P c e c') : Step P' c e c' := by
  obtain ⟨h⟩ := h
  exact .mk (hP _ _ _ _ _ _ h)

/-- A run of a program is one of every program that allows more. -/
theorem Run.weaken (hP : ∀ t p s l p' s', P t p s l p' s' → P' t p s l p' s')
    (h : Run P G c₀ tr c) : Run P' G c₀ tr c := by
  induction h with
  | nil => exact .nil
  | step _ hg hs ih => exact .step ih hg (hs.weaken hP)

end Weakening

section Settling

variable [DecidableEq Tid] {P : Program Tid Pc Sh Lab}
  {G : Config Tid Pc Sh → Tid × Lab → Prop}

/-- The rule for coming to rest. Every thread that is not settled can be settled without
unsettling the others; then all threads can be settled, if all but finitely many are. -/
theorem exists_run_settled {I : Config Tid Pc Sh → Prop} {R : Config Tid Pc Sh → Tid → Prop}
    (hsettle : ∀ c t, I c → ¬R c t →
      ∃ tr c', Run P G c tr c' ∧ I c' ∧ R c' t ∧ ∀ u, R c u → R c' u)
    {c : Config Tid Pc Sh} (hc : I c) (hfin : {t | ¬R c t}.Finite) :
    ∃ tr c', Run P G c tr c' ∧ I c' ∧ ∀ t, R c' t := by
  obtain ⟨S, hS⟩ : ∃ S : Finset Tid, ∀ t, ¬R c t → t ∈ S :=
    ⟨hfin.toFinset, fun t ht => hfin.mem_toFinset.mpr ht⟩
  induction S using Finset.induction_on generalizing c with
  | empty =>
    exact ⟨[], c, .nil, hc, fun t => by_contra fun ht => Finset.notMem_empty t (hS t ht)⟩
  | insert t S _ ih =>
    by_cases ht : R c t
    · refine ih hc hfin fun u hu => (Finset.mem_insert.mp (hS u hu)).resolve_left ?_
      rintro rfl
      exact hu ht
    · obtain ⟨tr, c', hr, hc', ht', hkeep⟩ := hsettle c t hc ht
      obtain ⟨tr', c'', hr', hc'', hall⟩ := ih hc'
        (hfin.subset fun u hu hcu => hu (hkeep u hcu)) fun u hu => by
          refine (Finset.mem_insert.mp (hS u fun hcu => hu (hkeep u hcu))).resolve_left ?_
          rintro rfl
          exact hu ht'
      exact ⟨_, c'', hr.trans hr', hc'', hall⟩

/-- The rule for coming to rest by a rank. While a thread is on its way to rest, `J` holds for
it, it has a step, and each of its steps lowers the rank and leaves at rest what is there. -/
theorem exists_run_settled_of_rank {I : Config Tid Pc Sh → Prop}
    {R : Config Tid Pc Sh → Tid → Prop} {J : Tid → Config Tid Pc Sh → Prop}
    (rank : Config Tid Pc Sh → Tid → ℕ) (hin : ∀ c t, I c → J t c)
    (hout : ∀ c t, J t c → R c t → I c)
    (hstep : ∀ c t, J t c → ¬R c t → ∃ l c', Step P c (t, l) c' ∧ G c (t, l) ∧ J t c' ∧
      rank c' t < rank c t ∧ ∀ u, R c u → R c' u)
    {c : Config Tid Pc Sh} (hc : I c) (hfin : {t | ¬R c t}.Finite) :
    ∃ tr c', Run P G c tr c' ∧ I c' ∧ ∀ t, R c' t := by
  apply exists_run_settled _ hc hfin
  intro c t hc hbusy
  have hJ := hin c t hc
  clear hc hbusy
  generalize hn : rank c t = n
  induction n using Nat.strongRecOn generalizing c with
  | ind n ih =>
    by_cases ht : R c t
    · exact ⟨[], c, .nil, hout c t hJ ht, ht, fun _ => id⟩
    · obtain ⟨l, c₁, hs, hG, hJ₁, hlt, hkeep⟩ := hstep c t hJ ht
      obtain ⟨tr, c', hr, hc', hend, hkeep'⟩ := ih _ (hn ▸ hlt) c₁ hJ₁ rfl
      exact ⟨_, c', (Run.step .nil hG hs).trans hr, hc', hend, fun u hu => hkeep' u (hkeep u hu)⟩

end Settling

end Concurrency
