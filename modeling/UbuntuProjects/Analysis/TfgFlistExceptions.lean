import UbuntuProjects.Analysis.TfgFlistSerial

/-!
# `tfg_flist`: calls that end by an exception of their callback

A thread that has left a call owns no mutex, whichever way it left
(`owns_nothing_outside`). The exception of a callback ends the loop where it is: the
elements in front have been treated, the one at hand is as the callback left it, and those
behind are untouched (`Unwound`). So a call that a thread makes alone, and that ends by an
exception, takes nothing out of the list but what its predicate had asked for.
-/

set_option autoImplicit false

namespace UbuntuProjects.TfgFlist

open Concurrency (Config Run anyStep Linked stages Simulates Status)

variable {Tid L T : Type}

/-! ## The elements at an exception -/

/-- The consecutive calls of the callback on these elements: what it makes of each element
and what it returns. -/
def Loop.calls (k : Loop L T) : List T → List (T × Option Bool)
  | [] => []
  | v :: vs => (k.written v, k.returned v) :: (k.next v).calls vs

/-- The loop after these calls. -/
def Loop.advance (k : Loop L T) (vs : List T) : Loop L T := vs.foldl Loop.next k

/-- The call of the callback on `v` throws, and those on the elements `pre` in front of it
have returned. A loop of `for_each` or `for_first_of` keeps all elements, one of `remove_if`
leaves out those for which the predicate returned true, and `remove_first_if` did not get
any such answer. -/
inductive Unwound : Op L T → List T → List T → Prop
  | scan {body : Callback L T Bool} {l : L} {pre post : List T} {v : T} :
      (∀ x ∈ Loop.calls ⟨body, l, []⟩ pre, x.2 = some false) →
      (Loop.advance ⟨body, l, []⟩ pre).returned v = none →
      Unwound (.scan body l) (pre ++ v :: post)
        ((Loop.calls ⟨body, l, []⟩ pre).map Prod.fst ++
          (Loop.advance ⟨body, l, []⟩ pre).written v :: post)
  | remove {p : Callback L T Bool} {once : Bool} {l : L} {pre post : List T} {v : T} :
      (∀ x ∈ Loop.calls ⟨p, l, []⟩ pre, x.2 ≠ none) →
      (once = true → ∀ x ∈ Loop.calls ⟨p, l, []⟩ pre, x.2 = some false) →
      (Loop.advance ⟨p, l, []⟩ pre).returned v = none →
      Unwound (.remove p once l) (pre ++ v :: post)
        (((Loop.calls ⟨p, l, []⟩ pre).filter fun x => x.2 = some false).map Prod.fst ++
          (Loop.advance ⟨p, l, []⟩ pre).written v :: post)

section Sequential

variable {k : Loop L T} {vs vs' vis : List T} {loc : L}

/-- INTERNAL: `for_each` and `for_first_of` from the middle. -/
theorem scan_thrown (h : k.scan vs = (vs', .loop .thrown loc vis)) :
    ∃ pre v post, vs = pre ++ v :: post ∧ (∀ x ∈ k.calls pre, x.2 = some false) ∧
      (k.advance pre).returned v = none ∧
      vs' = (k.calls pre).map Prod.fst ++ (k.advance pre).written v :: post := by
  induction vs generalizing k vs' with
  | nil =>
    obtain ⟨-, hres⟩ := Prod.mk.inj h
    exact absurd (Res.loop.inj hres).1 (by decide)
  | cons v vs ih =>
    cases hret : k.returned v with
    | none =>
      rw [Loop.scan, hret] at h
      obtain ⟨rfl, -⟩ := Prod.mk.inj h
      exact ⟨[], v, vs, rfl, fun x hx => absurd hx List.not_mem_nil, hret, rfl⟩
    | some b =>
      cases b with
      | true =>
        rw [Loop.scan, hret] at h
        obtain ⟨-, hres⟩ := Prod.mk.inj h
        exact absurd (Res.loop.inj hres).1 (by decide)
      | false =>
        rw [Loop.scan, hret] at h
        obtain ⟨rfl, hres⟩ := Prod.mk.inj h
        obtain ⟨pre, w, post, rfl, hcalls, hthrow, hrest⟩ :=
          ih (k := k.next v) (Prod.ext rfl hres)
        refine ⟨v :: pre, w, post, rfl, ?_, hthrow, ?_⟩
        · intro x hx
          rcases List.mem_cons.mp hx with rfl | hx
          · exact hret
          · exact hcalls x hx
        · exact congrArg (k.written v :: ·) hrest

/-- INTERNAL: `remove_if` and `remove_first_if` from the middle. -/
theorem remove_thrown {once : Bool} (h : k.remove once vs = (vs', .loop .thrown loc vis)) :
    ∃ pre v post, vs = pre ++ v :: post ∧ (∀ x ∈ k.calls pre, x.2 ≠ none) ∧
      (once = true → ∀ x ∈ k.calls pre, x.2 = some false) ∧ (k.advance pre).returned v = none ∧
      vs' = ((k.calls pre).filter fun x => x.2 = some false).map Prod.fst ++
        (k.advance pre).written v :: post := by
  induction vs generalizing k vs' with
  | nil =>
    obtain ⟨-, hres⟩ := Prod.mk.inj h
    cases once <;> exact absurd (Res.loop.inj hres).1 (by decide)
  | cons v vs ih =>
    cases hret : k.returned v with
    | none =>
      rw [Loop.remove, hret] at h
      obtain ⟨rfl, -⟩ := Prod.mk.inj h
      exact ⟨[], v, vs, rfl, fun x hx => absurd hx List.not_mem_nil,
        fun _ x hx => absurd hx List.not_mem_nil, hret, rfl⟩
    | some b =>
      cases b with
      | true =>
        rw [Loop.remove, hret] at h
        cases once with
        | true =>
          -- `remove_first_if` would have returned true
          obtain ⟨-, hres⟩ := Prod.mk.inj h
          exact absurd (Res.loop.inj hres).1 (by decide)
        | false =>
          obtain ⟨pre, w, post, rfl, hcalls, -, hthrow, hrest⟩ := ih (k := k.next v) h
          refine ⟨v :: pre, w, post, rfl, ?_, fun ho => absurd ho (by decide), hthrow, ?_⟩
          · intro x hx
            rcases List.mem_cons.mp hx with rfl | hx
            · simp [hret]
            · exact hcalls x hx
          · rw [Loop.calls, List.filter_cons_of_neg (by simp [hret])]
            exact hrest
      | false =>
        rw [Loop.remove, hret] at h
        obtain ⟨rfl, hres⟩ := Prod.mk.inj h
        obtain ⟨pre, w, post, rfl, hcalls, honce, hthrow, hrest⟩ :=
          ih (k := k.next v) (Prod.ext rfl hres)
        refine ⟨v :: pre, w, post, rfl, ?_, fun ho => ?_, hthrow, ?_⟩
        · intro x hx
          rcases List.mem_cons.mp hx with rfl | hx
          · simp [hret]
          · exact hcalls x hx
        · intro x hx
          rcases List.mem_cons.mp hx with rfl | hx
          · exact hret
          · exact honce ho x hx
        · rw [Loop.calls, List.filter_cons_of_pos (by simp [hret])]
          exact congrArg (k.written v :: ·) hrest

/-- INTERNAL: what a call leaves behind that ends by an exception of its callback. -/
theorem seq_thrown {op : Op L T} (h : op.seq vs = (vs', .loop .thrown loc vis)) :
    Unwound op vs vs' := by
  cases op with
  | pushFront v => cases h
  | empty => cases h
  | scan body l =>
    obtain ⟨pre, v, post, rfl, hcalls, hthrow, rfl⟩ := scan_thrown h
    exact .scan hcalls hthrow
  | remove p once l =>
    obtain ⟨pre, v, post, rfl, hcalls, honce, hthrow, rfl⟩ := remove_thrown h
    exact .remove hcalls honce hthrow

end Sequential

/-! ## The whole call -/

section Runs

variable [DecidableEq Tid] {c c₁ c₂ : Config Tid (Pc L T) (Shared Tid T)}
  {tr tr₁ tr₂ : List (Tid × Lab L T)} {t : Tid}

/-- A thread that has left a call, by an exception or not, owns no mutex. -/
theorem owns_nothing_outside {r : Res L T} (h : Run FlistStep anyStep (newList Tid L T) tr c)
    (hpc : c.pc t = .returning r) (a : Addr) : ¬Owns c.sh.heap t a := by
  obtain ⟨g, -, hloc⟩ := outline_run h
  intro ho
  have hmem := ((hloc t).1 a).mp ho
  rw [hpc] at hmem
  exact absurd hmem List.not_mem_nil

/-- INTERNAL: a call has made no difference before it has acquired a mutex. -/
theorem status_entry (op : Op L T) : op.entry.status = some (.pending op) := by
  cases op <;> rfl

/-- **A loop that ends by an exception of its callback.** While no other thread is in a
call, thread `t` makes a call that its callback ends by an exception. Then `t` owns no
mutex, and the elements of the chain are those from before the call, without those for
which the predicate of `remove_if` had returned true: the elements that the callback has
returned for are as it left them, and so is the one at which it threw. -/
theorem thrown_unwinds {op : Op L T} {loc : L} {vis : List T}
    (h₁ : Run FlistStep anyStep (newList Tid L T) tr₁ c₁) (hcall : c₁.pc t = op.entry)
    (hidle : ∀ u, u ≠ t → c₁.pc u = .idle)
    (h₂ : Run FlistStep (fun _ e => e.1 = t ∧ ∀ r, e.2 ≠ .ret r) c₁ tr₂ c₂)
    (hthrow : c₂.pc t = .returning (.loop .thrown loc vis)) :
    (∀ a, ¬Owns c₂.sh.heap t a) ∧
      ∃ xs vs xs' vs', Chain c₁.sh xs ∧ xs.map (elementOf c₁.sh.heap) = vs.map some ∧
        Chain c₂.sh xs' ∧ xs'.map (elementOf c₂.sh.heap) = vs'.map some ∧
        Unwound op vs vs' := by
  have hrun : Run FlistStep anyStep (newList Tid L T) (tr₁ ++ tr₂) c₂ := h₁.trans h₂.any
  refine ⟨owns_nothing_outside hrun hthrow, ?_⟩
  obtain ⟨-, vs, f, -, hR, -⟩ := h₁.reached.serializable serialRel_simulates serialRel_newList
  have hpend : f t = .pending op := by
    obtain ⟨-, -, -, -, hstat⟩ := id hR
    apply hstat t
    rw [hcall]
    exact status_entry op
  have hwork : ∀ u, (c₁.pc u).work = none := by
    intro u
    by_cases hu : u = t
    · subst hu
      rw [hcall]
      cases op <;> rfl
    · rw [hidle u hu]
      rfl
  have hwork' : ∀ u, (c₂.pc u).work = none := by
    intro u
    by_cases hu : u = t
    · subst hu
      rw [hthrow]
      rfl
    · rw [h₂.pc_of_alone (fun _ _ hg => hg.1) hu, hidle u hu]
      rfl
  obtain ⟨vs', f', hR', hdone⟩ := serialRel_simulates.alone hR hpend
    (h₂.reached.mono fun c e hg => by
      obtain ⟨⟨ht, hret⟩, tr, hr⟩ := hg
      refine ⟨⟨trivial, _, h₁.trans hr.any⟩, ht, fun r hseen => ?_⟩
      cases hl : e.2 with
      | ret r' => exact hret r' hl
      | _ =>
        rw [hl] at hseen
        cases hseen)
  have hstatus : f' t = .done (.loop .thrown loc vis) := by
    obtain ⟨-, -, -, -, hstat⟩ := id hR'
    apply hstat t
    rw [hthrow]
    rfl
  obtain ⟨xs, hxs, hvs⟩ := hR.elements hwork
  obtain ⟨xs', hxs', hvs'⟩ := hR'.elements hwork'
  refine ⟨xs, vs, xs', vs', hxs, hvs, hxs', hvs', ?_⟩
  rcases hdone with ⟨hp, -⟩ | ⟨r, hr, hstep⟩
  · rw [hstatus] at hp
    cases hp
  · obtain rfl : r = _ := Status.done.inj (hr.symm.trans hstatus)
    exact seq_thrown hstep

/-- `remove_if` on the elements 1 and 2 with a predicate that returns true for 1 and throws
at 2. -/
theorem thrown_unwinds_remove :
    ∃ c₂ : Config Bool (Pc Unit ℕ) (Shared Bool ℕ),
      c₂.pc false = .returning (.loop .thrown () [1, 2]) ∧ (∀ a, ¬Owns c₂.sh.heap false a) ∧
        ∃ xs' vs', Chain c₂.sh xs' ∧ xs'.map (elementOf c₂.sh.heap) = vs'.map some ∧
          ∃ vs, Unwound (.removeIf (fun l v => (l, v, if v = 1 then some true else none)) ())
            vs vs' := by
  have h₁ := (Run.nil : Run FlistStep anyStep (newList Bool Unit ℕ) [] _).snoc
    false trivial (.client (.call _ (.pushFront 2)))
  have h₂ := h₁.snoc false trivial (.client (.makeNode _ 2))
  have h₃ := h₂.snoc false trivial (.client (.pushLock rfl rfl))
  have h₄ := h₃.snoc false trivial (.client (.pushLink rfl rfl))
  have h₅ := h₄.snoc false trivial (.client (.unlock rfl))
  have h₆ := h₅.snoc false trivial (.client (.ret _ _))
  have h₇ := h₆.snoc false trivial (.client (.call _ (.pushFront 1)))
  have h₈ := h₇.snoc false trivial (.client (.makeNode _ 1))
  have h₉ := h₈.snoc false trivial (.client (.pushLock rfl rfl))
  have h₁₀ := h₉.snoc false trivial (.client (.pushLink rfl rfl))
  have h₁₁ := h₁₀.snoc false trivial (.client (.unlock rfl))
  have h₁₂ := h₁₁.snoc false trivial (.client (.ret _ _))
  have h₁₃ := h₁₂.snoc false trivial (.client (.call _
    (.removeIf (fun l v => (l, v, if v = 1 then some true else none)) ())))
  have k₁ := (h₁₃.onward (G := fun _ e => e.1 = false ∧ ∀ r, e.2 ≠ .ret r)).snoc
    false (by exact ⟨rfl, nofun⟩) (.remove (.start rfl rfl))
  have k₂ := k₁.snoc false (by exact ⟨rfl, nofun⟩) (.remove (.test rfl))
  have k₃ := k₂.snoc false (by exact ⟨rfl, nofun⟩) (.remove (.lock rfl rfl))
  have k₄ := k₃.snoc false (by exact ⟨rfl, nofun⟩) (.remove (.visit rfl rfl))
  have k₅ := k₄.snoc false (by exact ⟨rfl, nofun⟩) (.remove (.unlink rfl rfl))
  have k₆ := k₅.snoc false (by exact ⟨rfl, nofun⟩) (.remove (.unlockCur rfl))
  have k₇ := k₆.snoc false (by exact ⟨rfl, nofun⟩) (.remove (.destroy rfl))
  have k₈ := k₇.snoc false (by exact ⟨rfl, nofun⟩) (.remove (.test rfl))
  have k₉ := k₈.snoc false (by exact ⟨rfl, nofun⟩) (.remove (.lock rfl rfl))
  have k₁₀ := k₉.snoc false (by exact ⟨rfl, nofun⟩) (.remove (.visit rfl rfl))
  have k₁₁ := k₁₀.snoc false (by exact ⟨rfl, nofun⟩) (.remove (.unwind rfl))
  have k₁₂ := k₁₁.snoc false (by exact ⟨rfl, nofun⟩) (.client (.unlock rfl))
  obtain ⟨hown, xs, vs, xs', vs', -, -, hchain, hvs', hun⟩ :=
    thrown_unwinds (t := false) h₁₃
      (show _ = (Op.removeIf (fun l v => (l, v, if v = 1 then some true else none)) ()).entry
        from rfl)
      (fun u hu => by
        cases u with
        | false => exact absurd rfl hu
        | true => rfl) k₁₂ rfl
  exact ⟨_, rfl, hown, xs', vs', hchain, hvs', vs, hun⟩

end Runs

end UbuntuProjects.TfgFlist
