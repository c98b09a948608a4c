import Mathlib.Data.List.Basic

/-!
# Pending work on a list

A list on which several threads are at work, each of which still has to treat everything
behind the point it has reached, is written down as the sequence of its cells and of the
pending threads between them (`Item`). What the list will be when all have finished, and
what each of them will return, follows from the sequence (`settle`): a thread works on what
the threads further behind will have left. A change at one place of the sequence that
settles to the same list there is not seen anywhere else (`settle_append`).
-/

set_option autoImplicit false

namespace Concurrency

/-- A cell of the list, or a thread with the work it still has to do on the cells behind
it. -/
inductive Item (α τ β ρ : Type) where
  | cell (a : α) (v : β)
  | stage (t : τ) (work : List β → List β × ρ)

variable {α τ β ρ : Type}

/-- The list when all threads have finished, and the threads' results, if the list behind
the sequence is `vs`. -/
def settle : List (Item α τ β ρ) → List β → List β × List (τ × ρ)
  | [], vs => (vs, [])
  | .cell _ v :: its, vs => (v :: (settle its vs).1, (settle its vs).2)
  | .stage t work :: its, vs =>
    ((work (settle its vs).1).1, (t, (work (settle its vs).1).2) :: (settle its vs).2)

/-- The cells of the sequence. -/
def cells (its : List (Item α τ β ρ)) : List α :=
  its.filterMap fun
    | .cell a _ => some a
    | .stage _ _ => none

/-- The threads of the sequence with their work. -/
def stages (its : List (Item α τ β ρ)) : List (τ × (List β → List β × ρ)) :=
  its.filterMap fun
    | .cell _ _ => none
    | .stage t work => some (t, work)

section Lemmas

variable {its its' : List (Item α τ β ρ)}

@[simp] theorem cells_nil : cells ([] : List (Item α τ β ρ)) = [] := rfl

@[simp] theorem cells_cell (a : α) (v : β) : cells (.cell a v :: its) = a :: cells its := rfl

@[simp] theorem cells_stage (t : τ) (work : List β → List β × ρ) :
    cells (.stage t work :: its) = cells its := rfl

theorem mem_cells {a : α} {v : β} (h : .cell a v ∈ its) : a ∈ cells its :=
  List.mem_filterMap.mpr ⟨_, h, rfl⟩

@[simp] theorem cells_append : cells (its ++ its') = cells its ++ cells its' :=
  List.filterMap_append ..

@[simp] theorem stages_nil : stages ([] : List (Item α τ β ρ)) = [] := rfl

@[simp] theorem stages_cell (a : α) (v : β) : stages (.cell a v :: its) = stages its := rfl

@[simp] theorem stages_stage (t : τ) (work : List β → List β × ρ) :
    stages (.stage t work :: its) = (t, work) :: stages its := rfl

@[simp] theorem stages_append : stages (its ++ its') = stages its ++ stages its' :=
  List.filterMap_append ..

/-- The front of the sequence sees of the rest only the list that it settles to. -/
theorem settle_append (A B : List (Item α τ β ρ)) (vs : List β) :
    settle (A ++ B) vs =
      ((settle A (settle B vs).1).1, (settle A (settle B vs).1).2 ++ (settle B vs).2) := by
  induction A with
  | nil => rfl
  | cons x A ih =>
    cases x with
    | cell a v => simp [settle, ih]
    | stage t work => simp [settle, ih]

/-- Exchanging the rest of the sequence for one that settles to the same list. -/
theorem settle_replace (A : List (Item α τ β ρ)) {B C : List (Item α τ β ρ)} {vs : List β}
    (h : (settle C vs).1 = (settle B vs).1) :
    (settle (A ++ C) vs).1 = (settle (A ++ B) vs).1 ∧
      ∀ x ∈ (settle (A ++ C) vs).2, x ∈ (settle (A ++ B) vs).2 ∨ x ∈ (settle C vs).2 := by
  rw [settle_append, settle_append, h]
  refine ⟨rfl, fun x hx => ?_⟩
  rcases List.mem_append.mp hx with hx | hx
  · exact .inl (List.mem_append_left _ hx)
  · exact .inr hx

/-- The results are those of the threads of the sequence. -/
theorem mem_stages_of_settle {vs : List β} {x : τ × ρ} (hx : x ∈ (settle its vs).2) :
    ∃ work, (x.1, work) ∈ stages its := by
  induction its with
  | nil => cases hx
  | cons y its ih =>
    cases y with
    | cell a v => exact ih hx
    | stage t work =>
      rcases List.mem_cons.mp hx with rfl | hx
      · exact ⟨work, List.mem_cons_self ..⟩
      · obtain ⟨work', hmem⟩ := ih hx
        exact ⟨work', List.mem_cons_of_mem _ hmem⟩

/-- A sequence without threads has settled. -/
theorem settle_of_stages_nil {e : α → Option β} (h : stages its = [])
    (he : ∀ a v, .cell a v ∈ its → e a = some v) :
    (settle its []).1.map some = (cells its).map e := by
  induction its with
  | nil => rfl
  | cons x its ih =>
    cases x with
    | cell a v =>
      have ih := ih h fun b w hb => he b w (List.mem_cons_of_mem _ hb)
      simp [settle, ih, he a v (List.mem_cons_self ..)]
    | stage t work => cases h

end Lemmas

end Concurrency
