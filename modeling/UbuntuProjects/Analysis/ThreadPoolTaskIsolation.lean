import UbuntuProjects.Analysis.ThreadPoolIsolation
import UbuntuProjects.Analysis.ThreadPoolTasks

/-!
# Tasks of different pools

As long as the objects that wrappers refer to are left alone, and a thread whose
`tl_p_inner_queue` belongs to another pool neither pushes to it nor pops from it, each task stays
with the pool it was given to (`isolated_run`). A worker of one pool that assigns a task to
another pool puts it into a queue of its own pool (`task_in_foreign_queue`).
-/

set_option autoImplicit false

namespace UbuntuProjects.ThreadPool

open Concurrency

section Isolation

variable {Tid P O : Type} {c : Config Tid (Thread P) (World Tid P O)}

/-- A task that was given to a pool and has neither been taken nor destroyed is in one of the
queues of the pool, unless it has not been pushed yet, and a pool calls only tasks that were
given to it. -/
def Isolated (c : Config Tid (Thread P) (World Tid P O)) : Prop :=
  (∀ x p, c.sh.pools.given[x]? = some p → (∀ t, x ∉ heldTasks c (.hands t)) →
    (∀ t, x ∉ heldTasks c (.current t)) → x ∉ heldTasks c (.shared .called) →
    x ∉ heldTasks c (.shared .destroyed) →
    x ∈ heldTasks c (.shared (.global p)) ∨ ∃ i, x ∈ heldTasks c (.shared (.inner p i))) ∧
  ∀ g p, (g, p) ∈ c.sh.ran → ∃ x, g = some x ∧ c.sh.pools.given[x]? = some p

/-- With the tasks kept, they are with their pools as the wrappers are. -/
theorem Kept.isolated_iff (hK : Kept c.sh)
    (hcust : Custody (content (c.map World.pools)) c.sh.pools.given.length) :
    Isolated c ↔ WrappersIsolated (c.map World.pools) := by
  have hran : (∀ g p, (g, p) ∈ c.sh.ran → ∃ x, g = some x ∧ c.sh.pools.given[x]? = some p) ↔
      ∀ x p, (x, p) ∈ c.sh.pools.called → c.sh.pools.given[x]? = some p := by
    rw [hK.ran]
    constructor
    · intro h x p hx
      obtain ⟨y, hy, hgiven⟩ := h (some x) p (List.mem_map.mpr ⟨(x, p), hx, rfl⟩)
      cases hy
      exact hgiven
    · intro h g p hg
      obtain ⟨⟨x, q⟩, hx, heq⟩ := List.mem_map.mp hg
      cases heq
      exact ⟨x, rfl, h x _ hx⟩
  rw [Isolated, hK.heldTasks_eq hcust, hran]
  rfl

variable [DecidableEq Tid] [DecidableEq P] [DecidableEq O] {home : Tid → Option (P × ℕ)}

/-- **Pool isolation.** In every run of threads on any number of pools in which the objects that
wrappers refer to are left alone and the inner queue of a thread is only used for the pool it
belongs to, every task is with its own pool. -/
theorem isolated_run {tr : List (Tid × TaskLab P O)}
    (h : Run (TaskStep home) (Keeping UsesOwnPool) (taskStart home) tr c) : Isolated c := by
  obtain ⟨hrun, hK⟩ := kept_run h
  exact (hK.isolated_iff (custody_run hrun)).mpr (wrappers_isolated hrun)

/-- A step after which a task may be missing ends isolation, too. -/
theorem Kept.not_isolated {t : Tid} {l : TaskLab P O} {th' : Thread P} {w' : World Tid P O}
    (hK : Kept c.sh) (hcust : Custody (content (c.map World.pools)) c.sh.pools.given.length)
    (hG : ¬ KeepsTasks c (t, l)) (h : TaskStep home t (c.pc t) c.sh l th' w') :
    ¬ Isolated (⟨Function.update c.pc t th', w'⟩ : Config Tid _ _) := by
  intro hiso
  obtain ⟨x, hlt, hnone⟩ := hK.lost hcust hG h
  rcases hiso.1 x _ (List.getElem?_eq_getElem hlt) (fun u => hnone (.hands u))
    (fun u => hnone (.current u)) (hnone _) (hnone _) with hx | ⟨i, hx⟩
  · exact hnone _ hx
  · exact hnone _ hx

end Isolation

/-! ## Two pools -/

/-- Each of the two pools has one worker, and there is one outside thread. -/
def twoPools : Option Bool → Option (Bool × ℕ)
  | some p => some (p, 0)
  | none => none

/-- A run: the worker of the pool `true` calls a task that assigns a task to the pool `q`. That
task is in the worker's own inner queue and nowhere else. -/
theorem assigned_in_task (q : Bool) : ∃ tr c,
    Run (TaskStep twoPools) (Keeping fun c e => q = true → UsesOwnPool c e)
      (taskStart twoPools : Config (Option Bool) (Thread Bool) (World (Option Bool) Bool Bool))
      tr c ∧ c.sh.pools.given = [true, q] ∧
      ∀ k, 1 ∈ content (c.map World.pools) k → k = .shared (.inner true 0) := by
  have h₀ : Run (TaskStep twoPools) (Keeping fun c e => q = true → UsesOwnPool c e)
    (taskStart twoPools : Config (Option Bool) (Thread Bool) (World (Option Bool) Bool Bool))
    [] _ := .nil
  have h₁ := h₀.snoc none (keeping_pool fun _ => usesOwnPool_of_none rfl)
    (.clientCall rfl (by simp) (.construct (p := false) (n := 1) trivial rfl rfl Nat.one_pos))
  have h₂ := h₁.snoc none (keeping_pool fun _ => usesOwnPool_of_none rfl)
    (.clientCall rfl (by simp) (.construct (p := true) (n := 1) trivial rfl rfl Nat.one_pos))
  have h₃ := h₂.snoc none (keeping_create (by simp [taskStart]))
    (.object rfl trivial (.create (o := true)))
  have h₄ := h₃.snoc none (keeping_assign rfl fun _ => usesOwnPool_of_none rfl)
    (.assignTask (o := true) rfl rfl (.client (.assignTask (p := true) trivial rfl)))
  have h₅ := h₄.snoc none (keeping_pool fun _ => usesOwnPool_of_none rfl)
    (.silent rfl rfl (.assignTask (.startGlobal rfl)))
  have h₆ := h₅.snoc none (keeping_pool fun _ => usesOwnPool_of_none rfl)
    (.silent rfl rfl (.assignTask (.pushGlobal rfl)))
  have k₁ := h₆.snoc (some true) (keeping_pool fun _ => usesOwnPool_of_none rfl)
    (.silent rfl rfl (.initIndex rfl Nat.one_pos))
  have k₂ := k₁.snoc (some true) (keeping_pool fun _ => usesOwnPool_of_none rfl)
    (.silent rfl rfl .initQueue)
  have k₃ := k₂.snoc (some true) (keeping_pool fun _ => usesOwnPool_of_callOn rfl rfl (.inl rfl))
    (.silent rfl rfl (.work rfl rfl))
  have k₄ := k₃.snoc (some true) (keeping_pool fun _ => usesOwnPool_of_callOn rfl rfl (.inr rfl))
    (.silent rfl rfl (.tryWork (.startOwn rfl)))
  have k₅ := k₄.snoc (some true) (keeping_pool fun _ => usesOwnPool_of_callOn rfl rfl (.inr rfl))
    (.silent rfl rfl (.tryWork (.lockOwn rfl rfl rfl rfl)))
  have k₆ := k₅.snoc (some true) (keeping_pool fun _ => usesOwnPool_of_callOn rfl rfl (.inr rfl))
    (.silent rfl rfl (.tryWork (.popOwnEmpty rfl rfl rfl rfl)))
  have k₇ := k₆.snoc (some true) (keeping_pool fun _ => usesOwnPool_of_callOn rfl rfl (.inr rfl))
    (.silent rfl rfl (.tryWork (.unlockOwn rfl rfl rfl)))
  have k₈ := k₇.snoc (some true) (keeping_pool fun _ => usesOwnPool_of_callOn rfl rfl (.inr rfl))
    (.silent rfl rfl (.tryWork (.popGlobal rfl rfl)))
  have k₉ := k₈.snoc (some true) (keeping_pool fun _ => usesOwnPool_of_callOn rfl rfl (.inr rfl))
    (.call (o := true) rfl ⟨_, rfl⟩ rfl rfl .call)
  -- in the task
  have h₇ := k₉.snoc (some true) (keeping_create (by simp [taskStart, World.setObject]))
    (.object rfl trivial (.create (o := false)))
  have h₈ := h₇.snoc (some true)
    (keeping_assign rfl fun hq => by subst hq; exact usesOwnPool_of_callOn rfl rfl (.inl rfl))
    (.assignTask (o := false) rfl rfl (.client (.assignTask (p := q)
      (D := ⟨[], false, [⟨none, []⟩]⟩) trivial (by cases q <;> rfl))))
  have h₉ := h₈.snoc (some true)
    (keeping_pool fun hq => by subst hq; exact usesOwnPool_of_callOn rfl rfl (.inr rfl))
    (.silent rfl rfl (.assignTask (.startOwn rfl)))
  have h₁₀ := h₉.snoc (some true)
    (keeping_pool fun hq => by subst hq; exact usesOwnPool_of_callOn rfl rfl (.inr rfl))
    (.silent rfl rfl (.assignTask (.lockOwn rfl rfl rfl rfl)))
  have h₁₁ := h₁₀.snoc (some true)
    (keeping_pool fun hq => by subst hq; exact usesOwnPool_of_callOn rfl rfl (.inr rfl))
    (.silent rfl rfl (.assignTask (.push rfl rfl rfl)))
  refine ⟨_, _, h₁₁, rfl, fun k hk => ?_⟩
  cases k with
  | shared j =>
    cases j with
    | global p => cases p <;> cases hk
    | inner p i =>
      cases p with
      | true =>
        cases i with
        | zero => rfl
        | succ i => cases hk
      | false =>
        cases i with
        | zero => cases hk
        | succ i => cases hk
    | called =>
      cases hk with
      | tail _ hk => cases hk
    | destroyed => cases hk
  | hands u => rcases u with _ | _ | _ <;> cases hk
  | current u => rcases u with _ | _ | _ <;> cases hk

/-- A run with two pools: the worker of one of them calls a task that assigns another one to
the same pool. -/
theorem isolated_run_twoPools : ∃ tr c,
    Run (TaskStep twoPools) (Keeping UsesOwnPool)
      (taskStart twoPools : Config (Option Bool) (Thread Bool) (World (Option Bool) Bool Bool))
      tr c ∧ c.sh.pools.given = [true, true] ∧ Isolated c := by
  obtain ⟨tr, c, h, hgiven, -⟩ := assigned_in_task true
  have hown := h.mono fun c e hG => (⟨hG.1, fun l hl => hG.2 l hl rfl⟩ : Keeping UsesOwnPool c e)
  exact ⟨tr, c, hown, hgiven, isolated_run hown⟩

/-- A run: the worker of the pool `true` calls a task that assigns a task to the pool
`false`. -/
theorem task_in_foreign_queue : ∃ tr c,
    Run (TaskStep twoPools) KeepsTasks
      (taskStart twoPools : Config (Option Bool) (Thread Bool) (World (Option Bool) Bool Bool))
      tr c ∧ ¬ Isolated c := by
  obtain ⟨tr, c, h, hgiven, honly⟩ := assigned_in_task false
  refine ⟨tr, c, h.mono fun c e hG => hG.1, fun hiso => ?_⟩
  obtain ⟨hrun, hK⟩ := kept_run h
  have hwrappers := (hK.isolated_iff (custody_run hrun)).mp hiso
  have hqueue := hwrappers.1 1 false (by rw [Config.map, hgiven]; rfl)
    (fun t ht => by cases honly (.hands t) ht) (fun t ht => by cases honly (.current t) ht)
    (fun hcalled => by cases honly (.shared .called) hcalled)
    fun hdestroyed => by cases honly (.shared .destroyed) hdestroyed
  rcases hqueue with hglobal | ⟨i, hinner⟩
  · cases honly (.shared (.global false)) hglobal
  · cases honly (.shared (.inner false i)) hinner

end UbuntuProjects.ThreadPool
