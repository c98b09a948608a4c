import Mathlib.Algebra.BigOperators.Finprod
import Mathlib.Data.Set.Card.Arithmetic

/-!
# Counting over threads

A configuration has any number of threads, of which finitely many have moved. What they
contribute to a count (who has been notified, what is still to be done) is summed over all
threads (`finsum`), and a step changes the contribution of the thread that takes it and
perhaps of one more.
-/

set_option autoImplicit false

namespace Concurrency

variable {Tid : Type}

/-- If only the contribution of `t` changes, the sum changes by as much. -/
theorem finsum_of_update {f g : Tid → ℕ} {t : Tid} (hfin : (Function.support f).Finite)
    (h : ∀ u, u ≠ t → g u = f u) : finsum g + f t = finsum f + g t := by
  classical
  have hf : finsum f = ∑ u ∈ insert t hfin.toFinset, f u :=
    finsum_eq_sum_of_support_subset f fun u hu => by simp [Function.mem_support.mp hu]
  have hg : finsum g = ∑ u ∈ insert t hfin.toFinset, g u := by
    refine finsum_eq_sum_of_support_subset g fun u hu => ?_
    by_cases hut : u = t
    · simp [hut]
    · have hne : f u ≠ 0 := h u hut ▸ Function.mem_support.mp hu
      simp [hne]
  have hmem : t ∈ insert t hfin.toFinset := Finset.mem_insert_self ..
  have hrest : ∑ u ∈ (insert t hfin.toFinset).erase t, g u =
      ∑ u ∈ (insert t hfin.toFinset).erase t, f u :=
    Finset.sum_congr rfl fun u hu => h u (Finset.ne_of_mem_erase hu)
  rw [hf, hg, ← Finset.add_sum_erase _ f hmem, ← Finset.add_sum_erase _ g hmem, hrest]
  omega

/-- If the contributions of `t` and of another thread `v` change, the sum changes by as much
as both. -/
theorem finsum_of_update_two {f g : Tid → ℕ} {t v : Tid} (hfin : (Function.support f).Finite)
    (htv : t ≠ v) (h : ∀ u, u ≠ t → u ≠ v → g u = f u) :
    finsum g + f t + f v = finsum f + g t + g v := by
  classical
  have hone := finsum_of_update (g := Function.update f t (g t)) hfin fun u hu =>
    Function.update_of_ne hu ..
  have hfin' : (Function.support (Function.update f t (g t))).Finite := by
    refine (hfin.insert t).subset fun u hu => ?_
    by_cases hut : u = t
    · exact .inl hut
    · exact .inr (by simpa [Function.update_of_ne hut] using hu)
  have htwo := finsum_of_update (g := g) (t := v) hfin' fun u hu => by
    by_cases hut : u = t
    · simp [hut]
    · rw [h u hut hu, Function.update_of_ne hut]
  rw [Function.update_of_ne htv.symm] at htwo
  rw [Function.update_self] at hone
  omega

/-- The number of threads with a property, as a sum. -/
theorem ncard_eq_finsum (P : Tid → Prop) [DecidablePred P] :
    {t | P t}.ncard = finsum fun t => if P t then 1 else 0 := by
  rw [← finsum_one, finsum_mem_def]
  refine finsum_congr fun t => ?_
  by_cases ht : P t
  · rw [Set.indicator_of_mem (show t ∈ {t | P t} from ht), if_pos ht]
  · rw [Set.indicator_of_notMem (show t ∉ {t | P t} from ht), if_neg ht]

end Concurrency
