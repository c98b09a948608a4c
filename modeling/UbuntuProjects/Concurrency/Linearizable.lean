import UbuntuProjects.Concurrency.Program

/-!
# Linearizability

A history lists the calls and returns of all threads in the order in which they happen.
It is linearizable with respect to a sequential object if its calls can be put in one
order (`Linearization`) in which the object gives the results that were returned, every
returned call occurs exactly once, and a call that returned before another one was made
comes before it.

The way to linearizability is the atomic object (`AtomicRun`): the object to which a
call is made, which takes effect at one point between call and return, and then returns.
Every history of the atomic object is linearizable, in the order of the points
(`AtomicRun.linearizable`). A program is linearizable as soon as its runs can be followed
by runs of the atomic object (`Simulation.linearizable`).
-/

set_option autoImplicit false

namespace Concurrency

/-- What an observer sees of a thread: the call of an operation and its result. -/
inductive Event (Op Res : Type) where
  | call (op : Op)
  | ret (r : Res)

/-- The calls and returns of all threads, in the order in which they happen. -/
abbrev History (Tid Op Res : Type) : Type := List (Tid × Event Op Res)

/-- A sequential object: its first state, and what one operation may do to a state. -/
structure SeqSpec (Op Res σ : Type) where
  init : σ
  step : σ → Op → Res → σ → Prop

variable {Tid Op Res σ : Type}

/-- Running operations one after another, each with its result. -/
inductive SeqSpec.Legal (S : SeqSpec Op Res σ) (s₀ : σ) : List (Op × Res) → σ → Prop
  | nil : Legal S s₀ [] s₀
  | snoc {l : List (Op × Res)} {s s' : σ} {op : Op} {r : Res} :
      Legal S s₀ l s → S.step s op r s' → Legal S s₀ (l ++ [(op, r)]) s'

/-- The call at position `i` of the history returns `r` at position `j`: in between its
thread does nothing. -/
def Returns (H : History Tid Op Res) (i j : ℕ) (r : Res) : Prop :=
  ∃ t op, H[i]? = some (t, .call op) ∧ i < j ∧ H[j]? = some (t, .ret r) ∧
    ∀ k e, i < k → k < j → H[k]? = some e → e.1 ≠ t

/-- An order of the calls of a history, each given by its position, its operation and
its result. Pending calls may be left out. -/
structure Linearization (S : SeqSpec Op Res σ) (H : History Tid Op Res)
    (L : List (ℕ × Op × Res)) : Prop where
  legal : ∃ s, S.Legal S.init (L.map Prod.snd) s
  calls : ∀ x ∈ L, ∃ t, H[x.1]? = some (t, .call x.2.1)
  once : (L.map Prod.fst).Nodup
  returned : ∀ i j r, Returns H i j r → ∃ op, (i, op, r) ∈ L
  realTime : L.Pairwise fun x y => ∀ j r, Returns H y.1 j r → x.1 < j

/-- The history is the concurrent view of one sequential order of its calls. -/
def Linearizable (S : SeqSpec Op Res σ) (H : History Tid Op Res) : Prop :=
  ∃ L, Linearization S H L

/-! ## The atomic object -/

/-- Where a thread is in its use of the atomic object. -/
inductive Status (Op Res : Type) where
  | idle
  | pending (op : Op)
  | done (r : Res)

/-- What happens at the atomic object: a call, its effect, its return. -/
inductive Point (Op Res : Type) where
  | call (op : Op)
  | lin (op : Op) (r : Res)
  | ret (r : Res)

/-- The part of a point that an observer sees. -/
@[simp] def Point.event : Point Op Res → Option (Event Op Res)
  | .call op => some (.call op)
  | .lin _ _ => none
  | .ret r => some (.ret r)

/-- The observed history of a sequence of points. -/
def history (E : List (Tid × Point Op Res)) : History Tid Op Res :=
  E.filterMap fun e => e.2.event.map fun v => (e.1, v)

/-- One move of one thread at the atomic object, or none. -/
inductive AtomicMove (S : SeqSpec Op Res σ) :
    σ → Status Op Res → Option (Point Op Res) → σ → Status Op Res → Prop
  | stutter (s : σ) (st : Status Op Res) : AtomicMove S s st none s st
  | call (s : σ) (op : Op) : AtomicMove S s .idle (some (.call op)) s (.pending op)
  | lin {s s' : σ} {op : Op} {r : Res} : S.step s op r s' →
      AtomicMove S s (.pending op) (some (.lin op r)) s' (.done r)
  | ret (s : σ) (r : Res) : AtomicMove S s (.done r) (some (.ret r)) s .idle

/-- The runs of the atomic object. -/
inductive AtomicRun [DecidableEq Tid] (S : SeqSpec Op Res σ) :
    List (Tid × Point Op Res) → σ → (Tid → Status Op Res) → Prop
  | init : AtomicRun S [] S.init fun _ => .idle
  | move {E : List (Tid × Point Op Res)} {s s' : σ} {f : Tid → Status Op Res} {t : Tid}
      {v : Option (Point Op Res)} {st' : Status Op Res} :
      AtomicRun S E s f → AtomicMove S s (f t) v s' st' →
      AtomicRun S (E ++ (v.map fun p => (t, p)).toList) s' (Function.update f t st')

/-! ## Positions of a growing history -/

/-- Thread `t` has not acted since position `i`. -/
def QuietSince (H : History Tid Op Res) (i : ℕ) (t : Tid) : Prop :=
  ∀ k e, i < k → H[k]? = some e → e.1 ≠ t

theorem getElem?_snoc_of_some {α : Type} {l : List α} {i : ℕ} {x y : α} (h : l[i]? = some x) :
    (l ++ [y])[i]? = some x := by
  have hi : i < l.length := (List.getElem?_eq_some_iff.mp h).1
  rw [List.getElem?_append_left hi, h]

theorem getElem?_snoc_cases {α : Type} {l : List α} {i : ℕ} {x y : α}
    (h : (l ++ [y])[i]? = some x) : l[i]? = some x ∨ i = l.length ∧ x = y := by
  rcases Nat.lt_trichotomy i l.length with hi | hi | hi
  · exact .inl (by rwa [List.getElem?_append_left hi] at h)
  · subst hi
    exact .inr ⟨rfl, by simpa using h.symm⟩
  · rw [List.getElem?_eq_none (by simp; omega)] at h
    cases h

/-- Positions with an event lie within the history. -/
theorem lt_length_of_getElem? {α : Type} {l : List α} {i : ℕ} {x : α} (h : l[i]? = some x) :
    i < l.length :=
  (List.getElem?_eq_some_iff.mp h).1

/-- A new event returns at most the call that was waiting for it. -/
theorem Returns.of_snoc {H : History Tid Op Res} {i j : ℕ} {r : Res} {x : Tid × Event Op Res}
    (h : Returns (H ++ [x]) i j r) :
    Returns H i j r ∨ j = H.length ∧ ∃ t op, x = (t, .ret r) ∧
      H[i]? = some (t, .call op) ∧ QuietSince H i t := by
  obtain ⟨t, op, hi, hij, hj, hq⟩ := h
  have hlen := lt_length_of_getElem? hj
  simp only [List.length_append, List.length_singleton] at hlen
  have hi' : H[i]? = some (t, .call op) := by
    rcases getElem?_snoc_cases hi with hi | ⟨rfl, -⟩
    · exact hi
    · omega
  rcases getElem?_snoc_cases hj with hj | ⟨rfl, hx⟩
  · exact .inl ⟨t, op, hi', hij, hj, fun k e hik hkj hk =>
      hq k e hik hkj (getElem?_snoc_of_some hk)⟩
  · exact .inr ⟨rfl, t, op, hx.symm, hi', fun k e hik hk =>
      hq k e hik (lt_length_of_getElem? hk) (getElem?_snoc_of_some hk)⟩

/-- An event of another thread leaves a thread quiet. -/
theorem QuietSince.snoc {H : History Tid Op Res} {i : ℕ} {t u : Tid} (h : QuietSince H i t)
    (hu : u ≠ t) (v : Event Op Res) : QuietSince (H ++ [(u, v)]) i t := by
  intro k e hik hk
  rcases getElem?_snoc_cases hk with hk | ⟨-, rfl⟩
  · exact h k e hik hk
  · exact hu

/-! ## Histories of the atomic object -/

/-- The last call of a thread, as the atomic object's status records it. -/
def StatusAt (H : History Tid Op Res) (L : List (ℕ × Op × Res)) (t : Tid) :
    Status Op Res → Prop
  | .idle => True
  | .pending op => ∃ i, H[i]? = some (t, .call op) ∧ i ∉ L.map Prod.fst ∧ QuietSince H i t
  | .done r => ∃ i op, H[i]? = some (t, .call op) ∧ (i, op, r) ∈ L ∧ QuietSince H i t

/-- A call or return of another thread keeps a thread's status. -/
theorem StatusAt.snoc {H : History Tid Op Res} {L : List (ℕ × Op × Res)} {t u : Tid}
    {st : Status Op Res} (h : StatusAt H L t st) (hu : u ≠ t) (v : Event Op Res) :
    StatusAt (H ++ [(u, v)]) L t st := by
  cases st with
  | idle => trivial
  | pending op =>
    obtain ⟨i, hi, hL, hq⟩ := h
    exact ⟨i, getElem?_snoc_of_some hi, hL, hq.snoc hu v⟩
  | done r =>
    obtain ⟨i, op, hi, hL, hq⟩ := h
    exact ⟨i, op, getElem?_snoc_of_some hi, hL, hq.snoc hu v⟩

/-- A linearization stays one when a call is added to the history. -/
theorem Linearization.call {S : SeqSpec Op Res σ} {H : History Tid Op Res}
    {L : List (ℕ × Op × Res)} (h : Linearization S H L) (t : Tid) (op : Op) :
    Linearization S (H ++ [(t, .call op)]) L where
  legal := h.legal
  calls x hx := (h.calls x hx).imp fun _ hu => getElem?_snoc_of_some hu
  once := h.once
  returned i j r hr := by
    rcases hr.of_snoc with hr | ⟨-, u, op', hx, -⟩
    · exact h.returned i j r hr
    · simp at hx
  realTime := h.realTime.imp fun hxy j r hr => by
    rcases hr.of_snoc with hr | ⟨-, u, op', hx, -⟩
    · exact hxy j r hr
    · simp at hx

/-- A call that is quiet and has not taken effect takes effect after all others. -/
theorem Linearization.lin {S : SeqSpec Op Res σ} {H : History Tid Op Res}
    {L : List (ℕ × Op × Res)} (h : Linearization S H L) {t : Tid} {op : Op} {r : Res} {i : ℕ}
    {s s' : σ} (hs : S.Legal S.init (L.map Prod.snd) s) (hstep : S.step s op r s')
    (hi : H[i]? = some (t, .call op)) (hL : i ∉ L.map Prod.fst) (hq : QuietSince H i t) :
    Linearization S H (L ++ [(i, op, r)]) where
  legal := ⟨s', by simpa using hs.snoc hstep⟩
  calls x hx := by
    rcases List.mem_append.mp hx with hx | hx
    · exact h.calls x hx
    · obtain rfl := List.mem_singleton.mp hx
      exact ⟨t, hi⟩
  once := by
    rw [List.map_append, List.nodup_append]
    refine ⟨h.once, by simp, fun a ha b hb hab => hL ?_⟩
    obtain rfl : b = i := by simpa using hb
    exact hab ▸ ha
  returned j k r' hr := (h.returned j k r' hr).imp fun _ hm => List.mem_append_left _ hm
  realTime := by
    rw [List.pairwise_append]
    refine ⟨h.realTime, List.pairwise_singleton _ _, fun x _ y hy j r' hr => ?_⟩
    obtain rfl := List.mem_singleton.mp hy
    -- the call at `i` has not returned, so it has no return to compare with
    obtain ⟨u, op', hi', hij, hj, -⟩ := hr
    obtain rfl : t = u := by simpa using congrArg (Option.map Prod.fst) (hi.symm.trans hi')
    exact absurd rfl (hq j _ hij hj)

/-- Returning the result of a call that has taken effect keeps the linearization. -/
theorem Linearization.ret {S : SeqSpec Op Res σ} {H : History Tid Op Res}
    {L : List (ℕ × Op × Res)} (h : Linearization S H L) {t : Tid} {op : Op} {r : Res} {i : ℕ}
    (hi : H[i]? = some (t, .call op)) (hL : (i, op, r) ∈ L) (hq : QuietSince H i t) :
    Linearization S (H ++ [(t, .ret r)]) L where
  legal := h.legal
  calls x hx := (h.calls x hx).imp fun _ hu => getElem?_snoc_of_some hu
  once := h.once
  returned j k r' hr := by
    rcases hr.of_snoc with hr | ⟨-, u, op', hx, hj, hqj⟩
    · exact h.returned j k r' hr
    · -- the only quiet call of `t` is the one at `i`
      simp only [Prod.mk.injEq, Event.ret.injEq] at hx
      obtain ⟨rfl, rfl⟩ := hx
      rcases Nat.lt_trichotomy i j with hij | rfl | hij
      · exact absurd rfl (hq j _ hij hj)
      · exact ⟨op, hL⟩
      · exact absurd rfl (hqj i _ hij hi)
  realTime := by
    refine h.realTime.imp_of_mem fun {x y} hx _ hxy j r' hr => ?_
    rcases hr.of_snoc with hr | ⟨rfl, -⟩
    · exact hxy j r' hr
    · obtain ⟨u, hu⟩ := h.calls x hx
      exact lt_length_of_getElem? hu

/-- A linearization of the history that ends in the object's state and agrees with every
thread's status. -/
structure Tracks (S : SeqSpec Op Res σ) (H : History Tid Op Res) (s : σ)
    (f : Tid → Status Op Res) (L : List (ℕ × Op × Res)) : Prop where
  linearization : Linearization S H L
  legal : S.Legal S.init (L.map Prod.snd) s
  status : ∀ t, StatusAt H L t (f t)

/-- One move of the atomic object extends the linearization. -/
theorem Tracks.move [DecidableEq Tid] {S : SeqSpec Op Res σ} {H : History Tid Op Res} {s s' : σ}
    {f : Tid → Status Op Res} {L : List (ℕ × Op × Res)} (h : Tracks S H s f L) {t : Tid}
    {v : Option (Point Op Res)} {st' : Status Op Res} (hm : AtomicMove S s (f t) v s' st') :
    ∃ L', Tracks S (H ++ ((v.bind Point.event).map fun w => (t, w)).toList) s'
      (Function.update f t st') L' := by
  have hst := h.status t
  generalize hf : f t = st at hm hst
  cases hm with
  | stutter =>
    refine ⟨L, by simpa using h.linearization, by simpa using h.legal, fun u => ?_⟩
    simpa [← hf] using h.status u
  | call op =>
    refine ⟨L, h.linearization.call t op, h.legal, fun u => ?_⟩
    by_cases hu : u = t
    · subst hu
      simp only [Function.update_self]
      refine ⟨H.length, by simp, fun hmem => ?_, fun k e hk he => ?_⟩
      · obtain ⟨x, hx, hxH⟩ := List.mem_map.mp hmem
        obtain ⟨u, hu⟩ := h.linearization.calls x hx
        exact absurd (lt_length_of_getElem? hu) (by omega)
      · have := lt_length_of_getElem? he
        simp at this
        omega
    · simpa [Function.update_of_ne hu] using (h.status u).snoc (Ne.symm hu) (.call op)
  | @lin _ op r hstep =>
    obtain ⟨i, hi, hL, hq⟩ := hst
    refine ⟨L ++ [(i, op, r)], ?_, by simpa using h.legal.snoc hstep, fun u => ?_⟩
    · simpa [Point.event] using h.linearization.lin h.legal hstep hi hL hq
    · by_cases hu : u = t
      · subst hu
        simpa [Point.event] using ⟨i, op, hi, List.mem_append_right _ (List.mem_singleton_self _), hq⟩
      · simp only [Function.update_of_ne hu, Point.event, Option.bind_some, Option.map_none,
          Option.toList_none, List.append_nil]
        have hsu := h.status u
        cases hfu : f u with
        | idle => trivial
        | pending op' =>
          rw [hfu] at hsu
          obtain ⟨k, hk, hkL, hkq⟩ := hsu
          refine ⟨k, hk, fun hmem => ?_, hkq⟩
          rw [List.map_append, List.mem_append] at hmem
          rcases hmem with hmem | hmem
          · exact hkL hmem
          · obtain rfl : k = i := by simpa using hmem
            exact hu (by simpa using congrArg (Option.map Prod.fst) (hk.symm.trans hi))
        | done r' =>
          rw [hfu] at hsu
          obtain ⟨k, op', hk, hkL, hkq⟩ := hsu
          exact ⟨k, op', hk, List.mem_append_left _ hkL, hkq⟩
  | ret r =>
    obtain ⟨i, op, hi, hL, hq⟩ := hst
    refine ⟨L, h.linearization.ret hi hL hq, h.legal, fun u => ?_⟩
    by_cases hu : u = t
    · subst hu
      simp only [Function.update_self]
      trivial
    · simpa [Function.update_of_ne hu] using (h.status u).snoc (Ne.symm hu) (.ret r)

/-- Every run of the atomic object comes with a linearization of its history. -/
theorem AtomicRun.tracks [DecidableEq Tid] {S : SeqSpec Op Res σ}
    {E : List (Tid × Point Op Res)} {s : σ} {f : Tid → Status Op Res} (h : AtomicRun S E s f) :
    ∃ L, Tracks S (history E) s f L := by
  induction h with
  | init =>
    refine ⟨[], ⟨⟨_, .nil⟩, by simp, by simp, fun i j r hr => ?_, by simp⟩, .nil,
      fun _ => trivial⟩
    obtain ⟨t, op, hi, -⟩ := hr
    simp [history] at hi
  | @move E _ _ _ t v _ _ hm ih =>
    obtain ⟨L, hL⟩ := ih
    obtain ⟨L', hL'⟩ := hL.move hm
    refine ⟨L', ?_⟩
    have hhist : history (E ++ (v.map fun p => (t, p)).toList) =
        history E ++ ((v.bind Point.event).map fun w => (t, w)).toList := by
      cases v with
      | none => simp [history]
      | some p => cases p <;> simp [history, Point.event]
    rwa [hhist]

/-- The histories of the atomic object are linearizable. -/
theorem AtomicRun.linearizable [DecidableEq Tid] {S : SeqSpec Op Res σ}
    {E : List (Tid × Point Op Res)} {s : σ} {f : Tid → Status Op Res} (h : AtomicRun S E s f) :
    Linearizable S (history E) :=
  let ⟨L, hL⟩ := h.tracks
  ⟨L, hL.linearization⟩

end Concurrency
