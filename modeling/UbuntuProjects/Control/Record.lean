import Mathlib.Data.List.Infix

/-!
# Programs that keep a record

A program changes a state, part of which is a record of what it has done, the newest first.
It may stop early; its state is kept then. Where a record that is bad stays bad whatever is
done later, a program can be said to be good exactly when a condition holds (`Exact`), and the
conditions of two programs in a row are joined (`Exact.bind`).
-/

set_option autoImplicit false

namespace Control

variable {σ ε α β : Type}

/-- A program; the state of one that stops early is in the error. -/
abbrev Run (σ α : Type) : Type := StateT σ (Except σ) α

/-- The state in the end, stopped early or not. -/
def final (x : Run σ α) (s : σ) : σ :=
  match x s with
  | .ok (_, s') => s'
  | .error s' => s'

section Bind

variable {x : Run σ α} {f : α → Run σ β} {s s' : σ} {a : α}

theorem final_of_ok (h : x s = .ok (a, s')) : final x s = s' := by
  unfold final
  rw [h]

theorem final_of_error (h : x s = .error s') : final x s = s' := by
  unfold final
  rw [h]

theorem bind_of_ok (h : x s = .ok (a, s')) : (x >>= f) s = f a s' := by
  show (x s >>= fun p => f p.1 p.2) = f a s'
  rw [h]
  rfl

theorem bind_of_error (h : x s = .error s') : (x >>= f) s = .error s' := by
  show (x s >>= fun p => f p.1 p.2) = .error s'
  rw [h]
  rfl

end Bind

/-! ## Records that grow -/

/-- The program takes nothing back from its record. -/
def Grows (record : σ → List ε) (x : Run σ α) : Prop :=
  ∀ s, record s <:+ record (final x s)

section Growing

variable {record : σ → List ε} {x : Run σ α} {f : α → Run σ β}

theorem grows_pure (a : α) : Grows record (pure a : Run σ α) := fun _ => List.suffix_rfl

theorem grows_get : Grows record (get : Run σ σ) := fun _ => List.suffix_rfl

theorem grows_modify (g : σ → σ) (h : ∀ s, record s <:+ record (g s)) :
    Grows record (modify g : Run σ PUnit) := h

/-- INTERNAL: what comes behind a program adds to its record. -/
theorem suffix_bind (hf : ∀ a, Grows record (f a)) (s : σ) :
    record (final x s) <:+ record (final (x >>= f) s) := by
  cases h : x s with
  | ok p =>
    have hrest : final (x >>= f) s = final (f p.1) p.2 := by
      unfold final
      rw [bind_of_ok h]
    rw [final_of_ok h, hrest]
    exact hf p.1 p.2
  | error s' =>
    rw [final_of_error h, final_of_error (bind_of_error h)]

theorem Grows.bind (hx : Grows record x) (hf : ∀ a, Grows record (f a)) :
    Grows record (x >>= f) := by
  intro s
  exact (hx s).trans (suffix_bind hf s)

end Growing

/-! ## Conditions that are exact -/

/-- From a state with `P` the program ends with `Q` if `c` holds, and with a bad record if it
does not; it takes nothing back. -/
structure Exact (record : σ → List ε) (Good : List ε → Prop) (P : σ → Prop) (c : Prop)
    (x : Run σ α) (Q : α → σ → Prop) : Prop where
  good : c → ∀ s, P s → ∃ a s', x s = .ok (a, s') ∧ Q a s'
  bad : ¬c → ∀ s, P s → ¬Good (record (final x s))
  grows : Grows record x

section Conditions

variable {record : σ → List ε} {Good : List ε → Prop} {P : σ → Prop} {c c' : Prop}
  {x : Run σ α} {f : α → Run σ β} {Q : α → σ → Prop} {R : β → σ → Prop}

/-- A program that is good in any case. -/
theorem Exact.always (hgrows : Grows record x)
    (h : ∀ s, P s → ∃ a s', x s = .ok (a, s') ∧ Q a s') : Exact record Good P True x Q :=
  ⟨fun _ => h, fun hnot => absurd trivial hnot, hgrows⟩

/-- The same condition in other words. -/
theorem Exact.congr (h : Exact record Good P c x Q) (hc : c ↔ c') :
    Exact record Good P c' x Q :=
  ⟨fun hc' => h.good (hc.mpr hc'), fun hc' => h.bad (mt hc.mp hc'), h.grows⟩

/-- The end of the record tells whether the condition holds. -/
theorem Exact.good_iff {s : σ} (h : Exact record Good P c x Q)
    (hQ : ∀ a s, Q a s → Good (record s)) (hs : P s) : Good (record (final x s)) ↔ c := by
  constructor
  · intro hgood
    by_contra hc
    exact h.bad hc s hs hgood
  · intro hc
    obtain ⟨a, s', hx, hq⟩ := h.good hc s hs
    rw [final_of_ok hx]
    exact hQ a s' hq

/-- **Two programs in a row.** The second only adds to the record, so it does not make a bad
record good. -/
theorem Exact.bind (hsuffix : ∀ l l', l <:+ l' → Good l' → Good l)
    (hx : Exact record Good P c x Q) (hf : ∀ a, Exact record Good (Q a) c' (f a) R) :
    Exact record Good P (c ∧ c') (x >>= f) R := by
  have hgrows : ∀ a, Grows record (f a) := fun a => (hf a).grows
  refine ⟨?_, ?_, hx.grows.bind hgrows⟩
  · rintro ⟨hc, hc'⟩ s hs
    obtain ⟨a, s', hrun, hq⟩ := hx.good hc s hs
    obtain ⟨b, s'', hrun', hr⟩ := (hf a).good hc' s' hq
    exact ⟨b, s'', (bind_of_ok hrun).trans hrun', hr⟩
  · intro hnot s hs hgood
    by_cases hc : c
    · obtain ⟨a, s', hrun, hq⟩ := hx.good hc s hs
      apply (hf a).bad (fun hc' => hnot ⟨hc, hc'⟩) s' hq
      unfold final at hgood ⊢
      rwa [bind_of_ok hrun] at hgood
    · exact hx.bad hc s hs (hsuffix _ _ (suffix_bind hgrows s) hgood)

end Conditions

end Control
