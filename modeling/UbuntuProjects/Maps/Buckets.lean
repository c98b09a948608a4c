import UbuntuProjects.Maps.AssocMap

/-!
# Maps kept in buckets

The entries of a map are kept in a list of buckets, each in the bucket with the number
that a function `place` gives for its key (`Placed`). If `place` respects the equality of
keys, a key has its entry in one bucket and all others avoid it, so that an operation on
the key's entry may be done on that bucket (`Placed.update_perm`, `Placed.find_flatten`).

Moving an entry to another bucket keeps the entries of all buckets together
(`flatten_set_perm`).
-/

set_option autoImplicit false

namespace Maps

variable {K V α : Type}

/-! ## Replacing one part of a list of lists -/

/-- Taking one part out of a list of lists. -/
theorem flatten_perm {parts : List (List α)} {i : ℕ} {p : List α} (h : parts[i]? = some p) :
    parts.flatten.Perm (p ++ (parts.eraseIdx i).flatten) := by
  obtain ⟨hi, rfl⟩ := List.getElem?_eq_some_iff.mp h
  have hperm := (List.getElem_cons_eraseIdx_perm hi).symm.flatten
  rwa [List.flatten_cons] at hperm

/-- Replacing one part of a list of lists. -/
theorem flatten_set_perm {parts : List (List α)} {i : ℕ} {p : List α} (h : parts[i]? = some p)
    (q : List α) : (parts.set i q).flatten.Perm (q ++ (parts.eraseIdx i).flatten) := by
  obtain ⟨hi, rfl⟩ := List.getElem?_eq_some_iff.mp h
  have hperm := flatten_perm (List.getElem?_set_self hi (a := q))
  rwa [List.eraseIdx_set_eq] at hperm

/-- Replacing one part by itself. -/
theorem set_of_getElem? {l : List α} {i : ℕ} {x : α} (h : l[i]? = some x) : l.set i x = l := by
  obtain ⟨hi, rfl⟩ := List.getElem?_eq_some_iff.mp h
  exact List.set_getElem_self hi

/-! ## Placed entries -/

/-- Every entry is in the bucket that `place` gives for its key. -/
def Placed (place : K → ℕ) (parts : List (List (K × V))) : Prop :=
  ∀ i p, parts[i]? = some p → ∀ e ∈ p, place e.1 = i

section Placed

variable {E : KeyEq K} {place : K → ℕ} {parts : List (List (K × V))} {k : K}
  {p q : List (K × V)} {i : ℕ}

/-- Buckets without entries. -/
theorem placed_replicate (place : K → ℕ) (n : ℕ) :
    Placed place (List.replicate n ([] : List (K × V))) := by
  intro i p hp e he
  obtain rfl : p = [] := List.eq_of_mem_replicate (List.mem_of_getElem? hp)
  cases he

/-- Replacing the entries of one bucket. -/
theorem Placed.set (h : Placed place parts) (hq : ∀ e ∈ q, place e.1 = i) :
    Placed place (parts.set i q) := by
  intro j p hp e he
  by_cases hji : i = j
  · subst hji
    rw [List.getElem?_set] at hp
    simp only [if_true] at hp
    split at hp
    · cases hp
      exact hq e he
    · cases hp
  · rw [List.getElem?_set_ne hji] at hp
    exact h j p hp e he

/-- The other buckets avoid a key. -/
theorem Placed.avoids (h : Placed place parts)
    (hplace : ∀ a b, E.same a b → place a = place b) :
    E.Avoids k (parts.eraseIdx (place k)).flatten := by
  intro e he
  obtain ⟨p, hp, hep⟩ := List.mem_flatten.mp he
  obtain ⟨j, hj, hget⟩ := List.mem_eraseIdx_iff_getElem?.mp hp
  by_contra hsame
  simp only [Bool.not_eq_false] at hsame
  exact hj ((h j p hget e hep).symm.trans (hplace _ _ hsame))

/-- An operation on the entry of a key, done in the key's bucket. -/
theorem Placed.update_perm (h : Placed place parts)
    (hplace : ∀ a b, E.same a b → place a = place b)
    {f : List (K × V) → List (K × V)} (hf : E.KeyLocal k f)
    (hp : parts[place k]? = some p) :
    (parts.set (place k) (f p)).flatten.Perm (f parts.flatten) := by
  refine (flatten_set_perm hp (f p)).trans ?_
  rw [← hf.append (h.avoids hplace)]
  exact hf.perm (flatten_perm hp).symm

/-- The entry of a key, searched in the key's bucket. -/
theorem Placed.find_flatten (h : Placed place parts)
    (hplace : ∀ a b, E.same a b → place a = place b) (hd : E.Distinct parts.flatten)
    (hp : parts[place k]? = some p) : E.find k parts.flatten = E.find k p := by
  rw [KeyEq.find_perm hd (flatten_perm hp), KeyEq.find_append (h.avoids hplace)]

/-- The entries whose place is a bucket are those of the bucket. -/
theorem Placed.countP_flatten (h : Placed place parts) (hp : parts[i]? = some p) :
    parts.flatten.countP (fun e => place e.1 = i) = p.length := by
  have hin : p.countP (fun e => place e.1 = i) = p.length := by
    apply List.countP_eq_length.mpr
    intro e he
    simpa using h i p hp e he
  have hout : (parts.eraseIdx i).flatten.countP (fun e => place e.1 = i) = 0 := by
    apply List.countP_eq_zero.mpr
    intro e he
    obtain ⟨q, hq, heq⟩ := List.mem_flatten.mp he
    obtain ⟨j, hj, hget⟩ := List.mem_eraseIdx_iff_getElem?.mp hq
    have hplace := h j q hget e heq
    simpa [hplace] using hj
  rw [(flatten_perm hp).countP_eq, List.countP_append, hin, hout]
  rfl

end Placed

/-- The keys of one bucket are distinct if those of all buckets are. -/
theorem distinct_bucket {E : KeyEq K} {parts : List (List (K × V))} {i : ℕ}
    {p : List (K × V)} (h : E.Distinct parts.flatten) (hp : parts[i]? = some p) :
    E.Distinct p :=
  (h.perm (flatten_perm hp)).left

end Maps
