import Mathlib.Algebra.Ring.Nat
import Mathlib.Data.List.Rotate
import UbuntuProjects.Model.ThreadPool

/-!
# What one thread finds when no other steps

`try_take_task` looks at the caller's own inner queue, then at the shared queue, and then
at all inner queues from the one behind the caller's on. Alone, a thread has one way to go
through it (`Takes.functional`), and it finds a task if there is one (`try_take_task_alone`).
-/

set_option autoImplicit false

namespace UbuntuProjects.ThreadPool

open Concurrency

variable {Tid P : Type} [DecidableEq P]

/-! ## Writing a pool twice -/

section Writes

variable {s : Shared Tid P} {p : P} {D D' : Pool Tid} {i : ℕ} {iq iq' : InnerQueue Tid}

@[simp] theorem pools_setPool : (s.setPool p D).pools p = some D := by
  simp [Shared.setPool]

@[simp] theorem setPool_setPool : (s.setPool p D).setPool p D' = s.setPool p D' := by
  simp [Shared.setPool]

theorem setPool_self (hp : s.pools p = some D) : s.setPool p D = s := by
  unfold Shared.setPool
  rw [← hp, Function.update_eq_self]

omit [DecidableEq P] in
@[simp] theorem length_setInner :
    (D.setInner i iq).mInnerQueues.length = D.mInnerQueues.length := by
  simp [Pool.setInner]

omit [DecidableEq P] in
theorem getElem?_setInner (hi : D.mInnerQueues[i]? = some iq) :
    (D.setInner i iq').mInnerQueues[i]? = some iq' := by
  have hlt : i < D.mInnerQueues.length := (List.getElem?_eq_some_iff.mp hi).1
  unfold Pool.setInner
  rw [List.getElem?_set_self hlt]

omit [DecidableEq P] in
@[simp] theorem setInner_setInner : (D.setInner i iq).setInner i iq' = D.setInner i iq' := by
  simp [Pool.setInner]

omit [DecidableEq P] in
theorem setInner_self (hi : D.mInnerQueues[i]? = some iq) : D.setInner i iq = D := by
  obtain ⟨hlt, rfl⟩ := List.getElem?_eq_some_iff.mp hi
  unfold Pool.setInner
  rw [List.set_getElem_self]

end Writes

/-! ## Runs of one thread -/

/-- The inner queue that a step of the loop of `try_steal_task` probes: the one it locks. -/
def WorkStage.probed (index : ℤ) (sz : ℕ) : WorkStage → List ℕ
  | .lockSteal i => [stealIndex index i sz]
  | _ => []

/-- A thread goes through `try_take_task` alone, from the given stage on: what it takes, the
state it leaves, and the inner queues of the pool, `sz` of them, that it probes. -/
inductive Takes (t : Tid) (own : Option (P × ℕ)) (index : ℤ) (p : P) (sz : ℕ) :
    WorkStage → Shared Tid P → Option ℕ → Shared Tid P → List ℕ → Prop
  | found {x : ℕ} {s : Shared Tid P} : Takes t own index p sz (.call x) s (some x) s []
  | missed {i : ℕ} {s s' : Shared Tid P} : WorkStep t own index p (.steal i) s none s' →
      Takes t own index p sz (.steal i) s none s' []
  | step {stage next : WorkStage} {s s₁ s' : Shared Tid P} {r : Option ℕ} {ps : List ℕ} :
      WorkStep t own index p stage s (some next) s₁ →
      Takes t own index p sz next s₁ r s' ps →
      Takes t own index p sz stage s r s' (stage.probed index sz ++ ps)

section Alone

variable {t : Tid} {own : Option (P × ℕ)} {index : ℤ} {p : P} {sz : ℕ} {stage : WorkStage}
  {s s' s₁ s₂ : Shared Tid P}

/-- INTERNAL: there is at most one step from a stage. -/
theorem WorkStep.functional {n₁ n₂ : Option WorkStage}
    (h₁ : WorkStep t own index p stage s n₁ s₁) (h₂ : WorkStep t own index p stage s n₂ s₂) :
    n₁ = n₂ ∧ s₁ = s₂ := by
  cases h₁ <;> cases h₂ <;> simp_all <;> omega

/-- A thread alone has one way to go. -/
theorem Takes.functional {r₁ r₂ : Option ℕ} {ps₁ ps₂ : List ℕ}
    (h₁ : Takes t own index p sz stage s r₁ s₁ ps₁)
    (h₂ : Takes t own index p sz stage s r₂ s₂ ps₂) : r₁ = r₂ ∧ s₁ = s₂ ∧ ps₁ = ps₂ := by
  induction h₁ generalizing r₂ s₂ ps₂ with
  | found =>
    cases h₂ with
    | found => exact ⟨rfl, rfl, rfl⟩
    | step hstep _ => cases hstep
  | missed hmiss =>
    cases h₂ with
    | missed hmiss' => exact ⟨rfl, (hmiss.functional hmiss').2, rfl⟩
    | step hstep _ => cases (hmiss.functional hstep).1
  | step hstep _ ih =>
    cases h₂ with
    | found => cases hstep
    | missed hmiss => cases (hmiss.functional hstep).1
    | step hstep' hrest =>
      obtain ⟨hnext, rfl⟩ := hstep.functional hstep'
      cases hnext
      obtain ⟨rfl, rfl, rfl⟩ := ih hrest
      exact ⟨rfl, rfl, rfl⟩

/-! ## One queue after the other -/

variable {D : Pool Tid} {i j x : ℕ} {iq : InnerQueue Tid} {rest ps : List ℕ} {r : Option ℕ}

/-- INTERNAL: a queue that was free is unlocked as it was found. -/
theorem unlocked_eq (hp : s.pools p = some D) (hi : D.mInnerQueues[i]? = some iq)
    (hfree : iq.mMut = none) :
    (s.setPool p (D.setInner i { iq with mMut := some t })).setPool p
      ((D.setInner i { iq with mMut := some t }).setInner i { iq with mMut := none }) = s := by
  have hiq : ({ iq with mMut := none } : InnerQueue Tid) = iq := by
    rw [← hfree]
  rw [hiq, setPool_setPool, setInner_setInner, setInner_self hi, setPool_self hp]

/-- INTERNAL: the caller's own inner queue is empty. -/
theorem Takes.own_empty (hp : s.pools p = some D) (hi : D.mInnerQueues[i]? = some iq)
    (hfree : iq.mMut = none) (hempty : iq.mQueue = [])
    (h : Takes t (some (p, i)) index p sz .popGlobal s r s' ps) :
    Takes t (some (p, i)) index p sz .start s r s' ps := by
  have hunlock : WorkStep t (some (p, i)) index p (.unlockOwn none)
      (s.setPool p (D.setInner i { iq with mMut := some t })) _ _ :=
    .unlockOwn rfl pools_setPool (getElem?_setInner hi)
  rw [unlocked_eq hp hi hfree] at hunlock
  have hpop : WorkStep t (some (p, i)) index p .popOwn
      (s.setPool p (D.setInner i { iq with mMut := some t })) _ _ :=
    .popOwnEmpty rfl pools_setPool (getElem?_setInner hi) hempty
  exact .step (.startOwn rfl) (.step (.lockOwn rfl hp hi hfree)
    (.step hpop (.step hunlock h)))

/-- INTERNAL: the oldest task of the caller's own inner queue. -/
theorem Takes.own_found (hp : s.pools p = some D) (hi : D.mInnerQueues[i]? = some iq)
    (hfree : iq.mMut = none) (hqueue : iq.mQueue = x :: rest) :
    Takes t (some (p, i)) index p sz .start s (some x)
      (s.setPool p (D.setInner i { iq with mQueue := rest })) [] := by
  have hpop : WorkStep t (some (p, i)) index p .popOwn
      (s.setPool p (D.setInner i { iq with mMut := some t })) _ _ :=
    .popOwn rfl pools_setPool (getElem?_setInner hi) hqueue
  rw [setPool_setPool, setInner_setInner] at hpop
  have hunlock : WorkStep t (some (p, i)) index p (.unlockOwn (some x))
      (s.setPool p (D.setInner i ⟨some t, rest⟩)) _ _ :=
    .unlockOwn rfl pools_setPool (getElem?_setInner hi)
  rw [setPool_setPool, setInner_setInner] at hunlock
  rw [hfree]
  exact .step (.startOwn rfl) (.step (.lockOwn rfl hp hi hfree)
    (.step hpop (.step hunlock .found)))

/-- INTERNAL: a probed inner queue is empty. -/
theorem Takes.steal_empty (hp : s.pools p = some D) (hround : i < D.mInnerQueues.length)
    (hj : j = stealIndex index i D.mInnerQueues.length)
    (hi : D.mInnerQueues[j]? = some iq) (hfree : iq.mMut = none) (hempty : iq.mQueue = [])
    (h : Takes t own index p D.mInnerQueues.length (.steal (i + 1)) s r s' ps) :
    Takes t own index p D.mInnerQueues.length (.steal i) s r s' (j :: ps) := by
  have hj' : j = stealIndex index i
      (D.setInner j { iq with mMut := some t }).mInnerQueues.length := by
    rw [length_setInner]
    exact hj
  have hunlock : WorkStep t own index p (.unlockSteal i none)
      (s.setPool p (D.setInner j { iq with mMut := some t })) _ _ :=
    .unlockSteal pools_setPool hj' (getElem?_setInner hi)
  rw [unlocked_eq hp hi hfree] at hunlock
  have hpop : WorkStep t own index p (.popSteal i)
      (s.setPool p (D.setInner j { iq with mMut := some t })) _ _ :=
    .popStealEmpty pools_setPool hj' (getElem?_setInner hi) hempty
  have hrun : Takes t own index p D.mInnerQueues.length (.steal i) s r s' _ :=
    .step (.steal hp hround) (.step (.lockSteal hp hj hi hfree)
      (.step hpop (.step hunlock h)))
  rw [hj]
  exact hrun

/-- INTERNAL: the newest task of a probed inner queue. -/
theorem Takes.steal_found (hp : s.pools p = some D) (hround : i < D.mInnerQueues.length)
    (hj : j = stealIndex index i D.mInnerQueues.length)
    (hi : D.mInnerQueues[j]? = some iq) (hfree : iq.mMut = none)
    (hqueue : iq.mQueue = rest ++ [x]) :
    Takes t own index p D.mInnerQueues.length (.steal i) s (some x)
      (s.setPool p (D.setInner j { iq with mQueue := rest })) [j] := by
  have hj' : ∀ iq' : InnerQueue Tid,
      j = stealIndex index i (D.setInner j iq').mInnerQueues.length := by
    intro iq'
    rw [length_setInner]
    exact hj
  have hpop : WorkStep t own index p (.popSteal i)
      (s.setPool p (D.setInner j { iq with mMut := some t })) _ _ :=
    .popSteal pools_setPool (hj' _) (getElem?_setInner hi) hqueue
  rw [setPool_setPool, setInner_setInner] at hpop
  have hunlock : WorkStep t own index p (.unlockSteal i (some x))
      (s.setPool p (D.setInner j ⟨some t, rest⟩)) _ _ :=
    .unlockSteal pools_setPool (hj' _) (getElem?_setInner hi)
  rw [setPool_setPool, setInner_setInner] at hunlock
  have hrun : Takes t own index p D.mInnerQueues.length (.steal i) s (some x) _ _ :=
    .step (.steal hp hround) (.step (.lockSteal hp hj hi hfree)
      (.step hpop (.step hunlock .found)))
  rw [hfree, hj]
  rw [hj] at hrun
  exact hrun

end Alone

/-! ## The loop of `try_steal_task` -/

/-- INTERNAL: no sum in the loop overflows, and the index -1 of an outside thread gives 0. -/
theorem stealIndex_eq {index : ℤ} {i sz : ℕ} (hindex : -1 ≤ index) (hlt : index < sz)
    (hi : i < sz) (hmax : sz ≤ 2 ^ 63) :
    stealIndex index i sz = ((index + 1).toNat + i) % sz := by
  have hnonneg : 0 ≤ index + i + 1 := by omega
  have hword : index + i + 1 < 2 ^ 64 := by omega
  unfold stealIndex
  rw [Int.emod_eq_of_lt hnonneg hword]
  congr 1
  omega

/-- INTERNAL: the probes of all rounds are the inner queues, each once, from the given one
on around. -/
theorem cyclic_eq_rotate (first sz : ℕ) :
    ((List.range sz).map fun i => (first + i) % sz) = (List.range sz).rotate first := by
  apply List.ext_getElem
  · rw [List.length_map, List.length_rotate]
  · intro i h _
    rw [List.getElem_map, List.getElem_range, List.getElem_rotate, List.getElem_range,
      List.length_range, Nat.add_comm]

/-- The inner queue with this number, if it is there, is empty. -/
def Pool.EmptyAt (D : Pool Tid) (j : ℕ) : Prop :=
  ∀ iq, D.mInnerQueues[j]? = some iq → iq.mQueue = []

section Scan

variable {t : Tid} {own : Option (P × ℕ)} {index : ℤ} {p : P} {s : Shared Tid P}
  {D : Pool Tid}

/-- INTERNAL: what the rounds from the `i`-th on find; by induction on the number of rounds
left. -/
theorem Takes.scan (hp : s.pools p = some D) (hfree : ∀ iq ∈ D.mInnerQueues, iq.mMut = none)
    (n i : ℕ) (hn : i + n = D.mInnerQueues.length) :
    (∃ k iq x rest, k < n ∧
      (∀ k', k' < k → D.EmptyAt (stealIndex index (i + k') D.mInnerQueues.length)) ∧
      D.mInnerQueues[stealIndex index (i + k) D.mInnerQueues.length]? = some iq ∧
      iq.mQueue = rest ++ [x] ∧
      Takes t own index p D.mInnerQueues.length (.steal i) s (some x)
        (s.setPool p (D.setInner (stealIndex index (i + k) D.mInnerQueues.length)
          { iq with mQueue := rest }))
        ((List.range' i (k + 1)).map (stealIndex index · D.mInnerQueues.length))) ∨
    ((∀ k, k < n → D.EmptyAt (stealIndex index (i + k) D.mInnerQueues.length)) ∧
      Takes t own index p D.mInnerQueues.length (.steal i) s none s
        ((List.range' i n).map (stealIndex index · D.mInnerQueues.length))) := by
  induction n generalizing i with
  | zero =>
    refine .inr ⟨fun k hk => absurd hk (Nat.not_lt_zero k), ?_⟩
    exact .missed (.stealEnd hp (by omega))
  | succ n ih =>
    have hround : i < D.mInnerQueues.length := by omega
    have hlt : stealIndex index i D.mInnerQueues.length < D.mInnerQueues.length :=
      Nat.mod_lt _ (by omega)
    obtain ⟨iq, hiq⟩ : ∃ iq,
        D.mInnerQueues[stealIndex index i D.mInnerQueues.length]? = some iq :=
      ⟨_, List.getElem?_eq_getElem hlt⟩
    have hunlocked := hfree iq (List.mem_of_getElem? hiq)
    rcases List.eq_nil_or_concat iq.mQueue with hempty | ⟨rest, x, hqueue⟩
    · have hfirst : D.EmptyAt (stealIndex index i D.mInnerQueues.length) := by
        intro iq' hiq'
        rw [hiq] at hiq'
        rw [← Option.some.inj hiq']
        exact hempty
      have hall : ∀ m, (∀ k', k' < m →
            D.EmptyAt (stealIndex index (i + 1 + k') D.mInnerQueues.length)) →
          ∀ k', k' < m + 1 → D.EmptyAt (stealIndex index (i + k') D.mInnerQueues.length) := by
        intro m hm k' hk'
        cases k' with
        | zero => exact hfirst
        | succ k' =>
          have h := hm k' (by omega)
          rw [Nat.add_right_comm] at h
          exact h
      rcases ih (i + 1) (by omega) with ⟨k, iq', x, rest, hk, hbefore, hget, hqueue, hrun⟩ |
        ⟨hnone, hrun⟩
      · refine .inl ⟨k + 1, iq', x, rest, by omega, hall k hbefore, ?_, hqueue, ?_⟩
        · rw [← Nat.add_assoc, Nat.add_right_comm]
          exact hget
        · rw [← Nat.add_assoc, Nat.add_right_comm i, List.range'_succ, List.map_cons]
          exact hrun.steal_empty hp hround rfl hiq hunlocked hempty
      · refine .inr ⟨hall n hnone, ?_⟩
        rw [List.range'_succ, List.map_cons]
        exact hrun.steal_empty hp hround rfl hiq hunlocked hempty
    · rw [List.concat_eq_append] at hqueue
      refine .inl ⟨0, iq, x, rest, by omega, fun k' hk' => absurd hk' (Nat.not_lt_zero k'),
        hiq, hqueue, ?_⟩
      exact Takes.steal_found hp hround rfl hiq hunlocked hqueue

end Scan

/-! ## The whole of `try_take_task` -/

/-- The order in which a caller gets tasks: the oldest of its own inner queue, the oldest of
the shared queue, the newest of the first inner queue that is not empty, from the queue
`first` on around; nothing if there is none. -/
inductive Removes (own : Option ℕ) (first : ℕ) (D : Pool Tid) : Option ℕ → Pool Tid → Prop
  | own {i x : ℕ} {rest : List ℕ} {iq : InnerQueue Tid} : own = some i →
      D.mInnerQueues[i]? = some iq → iq.mQueue = x :: rest →
      Removes own first D (some x) (D.setInner i { iq with mQueue := rest })
  | global {x : ℕ} {rest : List ℕ} : (∀ i, own = some i → D.EmptyAt i) →
      D.mQueue = x :: rest → Removes own first D (some x) { D with mQueue := rest }
  | steal {k x : ℕ} {rest : List ℕ} {iq : InnerQueue Tid} :
      (∀ i, own = some i → D.EmptyAt i) → D.mQueue = [] → k < D.mInnerQueues.length →
      (∀ k', k' < k → D.EmptyAt ((first + k') % D.mInnerQueues.length)) →
      D.mInnerQueues[(first + k) % D.mInnerQueues.length]? = some iq →
      iq.mQueue = rest ++ [x] →
      Removes own first D (some x)
        (D.setInner ((first + k) % D.mInnerQueues.length) { iq with mQueue := rest })
  | nothing : D.mQueue = [] → (∀ iq ∈ D.mInnerQueues, iq.mQueue = []) →
      Removes own first D none D

omit [DecidableEq P] in
/-- INTERNAL: a queue that is looked at in some round is one of all. -/
theorem emptyAt_of_rounds {D : Pool Tid} (first : ℕ)
    (h : ∀ k, k < D.mInnerQueues.length → D.EmptyAt ((first + k) % D.mInnerQueues.length)) :
    ∀ iq ∈ D.mInnerQueues, iq.mQueue = [] := by
  intro iq hiq
  obtain ⟨j, hj⟩ := List.mem_iff_getElem?.mp hiq
  have hlt : j < D.mInnerQueues.length := (List.getElem?_eq_some_iff.mp hj).1
  have hmem : j ∈ (List.range D.mInnerQueues.length).map
      fun k => (first + k) % D.mInnerQueues.length := by
    rw [cyclic_eq_rotate, List.mem_rotate]
    exact List.mem_range.mpr hlt
  obtain ⟨k, hk, rfl⟩ := List.mem_map.mp hmem
  exact h k (List.mem_range.mp hk) iq hj

section Whole

variable {t : Tid} {own : Option (P × ℕ)} {index : ℤ} {p : P} {s : Shared Tid P}
  {D : Pool Tid} {first : ℕ}

/-- INTERNAL: what is left to do when the caller's own inner queue has nothing. -/
theorem takes_rest (hp : s.pools p = some D) (hfree : ∀ iq ∈ D.mInnerQueues, iq.mMut = none)
    (hsteal : ∀ k, k < D.mInnerQueues.length →
      stealIndex index k D.mInnerQueues.length = (first + k) % D.mInnerQueues.length)
    (hown : ∀ qi, own = some qi → D.EmptyAt qi.2) :
    ∃ r D' n, Takes t own index p D.mInnerQueues.length .popGlobal s r (s.setPool p D')
        ((List.range n).map (stealIndex index · D.mInnerQueues.length)) ∧
      n ≤ D.mInnerQueues.length ∧ (r = none → n = D.mInnerQueues.length) ∧
      Removes (own.map Prod.snd) first D r D' := by
  have hempty : ∀ i, own.map Prod.snd = some i → D.EmptyAt i := by
    intro i hi
    obtain ⟨qi, hqi, rfl⟩ := Option.map_eq_some_iff.mp hi
    exact hown qi hqi
  cases hqueue : D.mQueue with
  | cons x rest =>
    refine ⟨some x, { D with mQueue := rest }, 0, ?_, Nat.zero_le _, nofun,
      .global hempty hqueue⟩
    exact .step (.popGlobal hp hqueue) .found
  | nil =>
    have hglobal : WorkStep t own index p .popGlobal s (some (.steal 0)) s :=
      .popGlobalEmpty hp hqueue
    rcases Takes.scan hp hfree D.mInnerQueues.length 0 (Nat.zero_add _) with
      ⟨k, iq, x, rest, hk, hbefore, hget, hlast, hrun⟩ | ⟨hnone, hrun⟩
    · rw [Nat.zero_add] at hget hrun
      rw [← List.range_eq_range'] at hrun
      refine ⟨some x, _, k + 1, .step hglobal hrun, by omega, nofun, ?_⟩
      rw [hsteal k hk] at hget ⊢
      refine .steal hempty hqueue hk ?_ hget hlast
      intro k' hk'
      have h := hbefore k' hk'
      rw [Nat.zero_add, hsteal k' (by omega)] at h
      exact h
    · rw [← List.range_eq_range'] at hrun
      refine ⟨none, D, D.mInnerQueues.length, ?_, le_rfl, fun _ => rfl, .nothing hqueue ?_⟩
      · rw [setPool_self hp]
        exact .step hglobal hrun
      · apply emptyAt_of_rounds first
        intro k hk
        have h := hnone k hk
        rw [Nat.zero_add, hsteal k hk] at h
        exact h

omit [DecidableEq P] in
/-- INTERNAL: nothing is got exactly when all queues are empty. -/
theorem Removes.eq_none_iff {i : Option ℕ} {r : Option ℕ} {D' : Pool Tid}
    (h : Removes i first D r D') :
    r = none ↔ D.mQueue = [] ∧ ∀ iq ∈ D.mInnerQueues, iq.mQueue = [] := by
  cases h with
  | own _ hget hqueue =>
    refine ⟨nofun, fun ⟨_, hall⟩ => ?_⟩
    rw [hall _ (List.mem_of_getElem? hget)] at hqueue
    exact absurd hqueue.symm (List.cons_ne_nil _ _)
  | global _ hqueue =>
    refine ⟨nofun, fun ⟨hnil, _⟩ => ?_⟩
    rw [hnil] at hqueue
    exact absurd hqueue.symm (List.cons_ne_nil _ _)
  | steal _ _ _ _ hget hqueue =>
    refine ⟨nofun, fun ⟨_, hall⟩ => ?_⟩
    rw [hall _ (List.mem_of_getElem? hget)] at hqueue
    exact absurd hqueue.symm (List.append_ne_nil_of_right_ne_nil _ (List.cons_ne_nil _ _))
  | nothing hnil hall => exact ⟨fun _ => ⟨hnil, hall⟩, fun _ => rfl⟩

/-- **A thread alone finds a task if there is one.** For a worker of the pool or an outside
thread, with all inner queues unlocked: there is one way through `try_take_task`; it takes
the caller's own oldest task, else the oldest of the shared queue, else the newest of the
first inner queue that is not empty behind the caller's, and changes nothing else; it finds
none exactly when all queues are empty; and the rounds of `try_steal_task` are the inner
queues each once, of which it probes all if it finds none.
SRCLINE: threadpool.h:115-133 -/
theorem try_take_task_alone (t : Tid) (own : Option (P × ℕ)) (index : ℤ) (p : P)
    (s : Shared Tid P) (D : Pool Tid) (hp : s.pools p = some D)
    (hmax : D.mInnerQueues.length ≤ 2 ^ 63)
    (hcaller : (∃ i, i < D.mInnerQueues.length ∧ own = some (p, i) ∧ index = i) ∨
      (own = none ∧ index = -1))
    (hfree : ∀ iq ∈ D.mInnerQueues, iq.mMut = none) :
    ∃ r D' n, Takes t own index p D.mInnerQueues.length .start s r (s.setPool p D')
        ((List.range n).map (stealIndex index · D.mInnerQueues.length)) ∧
      (∀ r₂ s₂ ps₂, Takes t own index p D.mInnerQueues.length .start s r₂ s₂ ps₂ →
        r₂ = r ∧ s₂ = s.setPool p D') ∧
      Removes (own.map Prod.snd) (index + 1).toNat D r D' ∧
      (r = none ↔ D.mQueue = [] ∧ ∀ iq ∈ D.mInnerQueues, iq.mQueue = []) ∧
      n ≤ D.mInnerQueues.length ∧ (r = none → n = D.mInnerQueues.length) ∧
      ((List.range D.mInnerQueues.length).map
        (stealIndex index · D.mInnerQueues.length)).Perm (List.range D.mInnerQueues.length) := by
  have hbounds : -1 ≤ index ∧ index < D.mInnerQueues.length := by
    rcases hcaller with ⟨i, hi, -, rfl⟩ | ⟨-, rfl⟩ <;> omega
  have hsteal : ∀ k, k < D.mInnerQueues.length → stealIndex index k D.mInnerQueues.length =
      ((index + 1).toNat + k) % D.mInnerQueues.length :=
    fun k hk => stealIndex_eq hbounds.1 hbounds.2 hk hmax
  have hperm : ((List.range D.mInnerQueues.length).map
      (stealIndex index · D.mInnerQueues.length)).Perm (List.range D.mInnerQueues.length) := by
    have hmap := List.map_congr_left fun k hk => hsteal k (List.mem_range.mp hk)
    rw [hmap, cyclic_eq_rotate]
    exact List.rotate_perm _ _
  have hrun : ∃ r D' n, Takes t own index p D.mInnerQueues.length .start s r (s.setPool p D')
        ((List.range n).map (stealIndex index · D.mInnerQueues.length)) ∧
      n ≤ D.mInnerQueues.length ∧ (r = none → n = D.mInnerQueues.length) ∧
      Removes (own.map Prod.snd) (index + 1).toNat D r D' := by
    rcases hcaller with ⟨i, hi, rfl, -⟩ | ⟨rfl, -⟩
    · have hget := List.getElem?_eq_getElem hi
      have hunlocked := hfree _ (List.mem_of_getElem? hget)
      cases hqueue : D.mInnerQueues[i].mQueue with
      | cons x rest =>
        exact ⟨some x, _, 0, .own_found hp hget hunlocked hqueue, Nat.zero_le _, nofun,
          .own rfl hget hqueue⟩
      | nil =>
        have hown : ∀ qi, some (p, i) = some qi → D.EmptyAt qi.2 := by
          intro qi hqi iq hiq
          rw [← Option.some.inj hqi, hget] at hiq
          rw [← Option.some.inj hiq]
          exact hqueue
        obtain ⟨r, D', n, htakes, hn, hall, hremoves⟩ := takes_rest hp hfree hsteal hown
        exact ⟨r, D', n, htakes.own_empty hp hget hunlocked hqueue, hn, hall, hremoves⟩
    · have hown : ∀ qi, (none : Option (P × ℕ)) = some qi → D.EmptyAt qi.2 := nofun
      obtain ⟨r, D', n, htakes, hn, hall, hremoves⟩ := takes_rest hp hfree hsteal hown
      exact ⟨r, D', n, .step (.startGlobal rfl) htakes, hn, hall, hremoves⟩
  obtain ⟨r, D', n, htakes, hn, hall, hremoves⟩ := hrun
  refine ⟨r, D', n, htakes, ?_, hremoves, hremoves.eq_none_iff, hn, hall, hperm⟩
  intro r₂ s₂ ps₂ h₂
  obtain ⟨hr, hs, -⟩ := h₂.functional htakes
  exact ⟨hr, hs⟩

end Whole

/-- A pool of two workers; the second one's inner queue holds the task 7. -/
def oneTask : Pool ℕ := ⟨[], false, [⟨none, []⟩, ⟨none, [7]⟩]⟩

/-- The first worker finds the task in the inner queue of the second. -/
theorem try_take_task_alone_steals :
    ∃ r D' n, Takes 0 (some (0, 0)) 0 0 2 .start
        (⟨fun _ => some oneTask, fun _ => false, fun _ => false, [0], [], []⟩ : Shared ℕ ℕ) r
        (Shared.setPool ⟨fun _ => some oneTask, fun _ => false, fun _ => false, [0], [], []⟩ 0 D')
        ((List.range n).map (stealIndex 0 · 2)) ∧
      Removes (some 0) 1 oneTask r D' ∧ r ≠ none := by
  obtain ⟨r, D', n, htakes, -, hremoves, hnone, -⟩ := try_take_task_alone 0 (some (0, 0)) 0 0
    (⟨fun _ => some oneTask, fun _ => false, fun _ => false, [0], [], []⟩ : Shared ℕ ℕ) oneTask
    rfl (by decide) (.inl ⟨0, by decide, rfl, rfl⟩) (by simp [oneTask])
  refine ⟨r, D', n, htakes, hremoves, fun hr => ?_⟩
  have hempty := (hnone.mp hr).2 ⟨none, [7]⟩ (by simp [oneTask])
  exact absurd hempty (List.cons_ne_nil _ _)

end UbuntuProjects.ThreadPool
