import UbuntuProjects.Concurrency.Linearizable

/-!
# Following a program by the atomic object

A program implements a sequential object when each of its runs can be followed by a run
of the atomic object: every step of the program is matched by at most one move of the
same thread at the atomic object, and both look the same to an observer
(`Run.follows`). What the observer sees is a parameter. If it sees calls and returns,
the program is linearizable (`Run.linearizable`); if it also sees the steps at which
operations take effect, the order of the operations is known.
-/

set_option autoImplicit false

namespace Concurrency

variable {Tid Pc Sh Lab Op Res σ β : Type} [DecidableEq Tid]

/-- What an observer sees of a sequence of labelled steps. -/
def observed {α : Type} (view : α → Option β) (l : List (Tid × α)) : List (Tid × β) :=
  l.filterMap fun e => (view e.2).map fun b => (e.1, b)

omit [DecidableEq Tid] in
@[simp] theorem observed_snoc {α : Type} (view : α → Option β) (l : List (Tid × α))
    (t : Tid) (a : α) :
    observed view (l ++ [(t, a)]) =
      observed view l ++ ((view a).map fun b => (t, b)).toList := by
  cases h : view a <;> simp [observed, h]

omit [DecidableEq Tid] in
/-- Appending an optional step shows what is seen of it. -/
theorem observed_append_option {α : Type} (view : α → Option β) (l : List (Tid × α))
    (t : Tid) (v : Option α) :
    observed view (l ++ (v.map fun p => (t, p)).toList) =
      observed view l ++ ((v.bind view).map fun b => (t, b)).toList := by
  cases v with
  | none => simp
  | some p => simp

omit [DecidableEq Tid] in
/-- The observer of calls and returns sees the history. -/
theorem observed_event (E : List (Tid × Point Op Res)) : observed Point.event E = history E :=
  rfl

/-- A relation between configurations and states of the atomic object that lets the
object follow every allowed step of the program. -/
structure Simulates (P : Program Tid Pc Sh Lab) (G : Config Tid Pc Sh → Tid × Lab → Prop)
    (S : SeqSpec Op Res σ) (view : Lab → Option β) (point : Point Op Res → Option β)
    (R : Config Tid Pc Sh → σ → (Tid → Status Op Res) → Prop) : Prop where
  follow : ∀ {c c' : Config Tid Pc Sh} {t : Tid} {l : Lab} {s : σ} {f : Tid → Status Op Res},
    R c s f → G c (t, l) → Step P c (t, l) c' →
      ∃ v s' st', AtomicMove S s (f t) v s' st' ∧ v.bind point = view l ∧
        R c' s' (Function.update f t st')

/-- The simulation rule. -/
theorem Run.follows {P : Program Tid Pc Sh Lab} {G : Config Tid Pc Sh → Tid × Lab → Prop}
    {S : SeqSpec Op Res σ} {view : Lab → Option β} {point : Point Op Res → Option β}
    {R : Config Tid Pc Sh → σ → (Tid → Status Op Res) → Prop}
    (hR : Simulates P G S view point R) {c₀ c : Config Tid Pc Sh} {tr : List (Tid × Lab)}
    (h₀ : R c₀ S.init fun _ => .idle) (h : Run P G c₀ tr c) :
    ∃ E s f, AtomicRun S E s f ∧ R c s f ∧ observed point E = observed view tr := by
  induction h with
  | nil => exact ⟨[], _, _, .init, h₀, rfl⟩
  | @step _ _ _ e _ hg hs ih =>
    obtain ⟨E, s, f, hE, hRc, hobs⟩ := ih
    obtain ⟨t, l⟩ := e
    obtain ⟨v, s', st', hm, hv, hR'⟩ := hR.follow hRc hg hs
    refine ⟨_, s', _, hE.move hm, hR', ?_⟩
    rw [observed_append_option, hobs, hv, observed_snoc]

/-- The rule for one thread alone: a call that is pending has no effect yet or the one that
the sequential object gives it, until it returns. -/
theorem Simulates.alone {P : Program Tid Pc Sh Lab} {G : Config Tid Pc Sh → Tid × Lab → Prop}
    {S : SeqSpec Op Res σ} {view : Lab → Option β} {point : Point Op Res → Option β}
    {R : Config Tid Pc Sh → σ → (Tid → Status Op Res) → Prop}
    (hR : Simulates P G S view point R) {c₁ c₂ : Config Tid Pc Sh} {tr : List (Tid × Lab)}
    {t : Tid} {op : Op} {s₁ : σ} {f₁ : Tid → Status Op Res} (h₁ : R c₁ s₁ f₁)
    (hpend : f₁ t = .pending op)
    (h : Run P (fun c e => G c e ∧ e.1 = t ∧ ∀ r, view e.2 ≠ point (.ret r)) c₁ tr c₂) :
    ∃ s₂ f₂, R c₂ s₂ f₂ ∧
      ((f₂ t = .pending op ∧ s₂ = s₁) ∨ ∃ r, f₂ t = .done r ∧ S.step s₁ op r s₂) := by
  apply h.invariant (fun c => ∃ s f, R c s f ∧
    ((f t = .pending op ∧ s = s₁) ∨ ∃ r, f t = .done r ∧ S.step s₁ op r s))
  · exact ⟨s₁, f₁, h₁, .inl ⟨hpend, rfl⟩⟩
  · rintro c ⟨u, l⟩ c' ⟨s, f, hRc, hst⟩ ⟨hg, rfl, hnoret⟩ hs
    obtain ⟨v, s', st', hm, hv, hR'⟩ := hR.follow hRc hg hs
    refine ⟨s', _, hR', ?_⟩
    rw [Function.update_self]
    rcases hst with ⟨hf, rfl⟩ | ⟨r, hf, hstep⟩
    · rw [hf] at hm
      cases hm with
      | stutter => exact .inl ⟨rfl, rfl⟩
      | lin hstep => exact .inr ⟨_, rfl, hstep⟩
    · rw [hf] at hm
      cases hm with
      | stutter => exact .inr ⟨r, rfl, hstep⟩
      | ret => exact absurd hv.symm (hnoret r)

/-- A program that the atomic object can follow is linearizable. -/
theorem Run.linearizable {P : Program Tid Pc Sh Lab}
    {G : Config Tid Pc Sh → Tid × Lab → Prop} {S : SeqSpec Op Res σ}
    {view : Lab → Option (Event Op Res)}
    {R : Config Tid Pc Sh → σ → (Tid → Status Op Res) → Prop}
    (hR : Simulates P G S view Point.event R) {c₀ c : Config Tid Pc Sh}
    {tr : List (Tid × Lab)} (h₀ : R c₀ S.init fun _ => .idle) (h : Run P G c₀ tr c) :
    Linearizable S (observed view tr) := by
  obtain ⟨E, s, f, hE, -, hobs⟩ := h.follows hR h₀
  rw [← hobs, observed_event]
  exact hE.linearizable

end Concurrency
