import UbuntuProjects.Analysis.ThreadPoolLifetime
import UbuntuProjects.Concurrency.Layers
import UbuntuProjects.Model.ThreadPoolTasks

/-!
# The tasks behind the wrappers

As long as the clients leave an object alone that a wrapper still refers to (`KeepsTasks`), each
wrapper that has not been called leads to the task it was made for, and what the pools call are
these tasks (`Kept`). The runs of the pools with the objects are then the runs of the pools, and
each task is where its wrapper is (`exactly_once`). A step that breaks the condition loses a
task at once (`Kept.lost`), for instance if a client drops its object early (`dropped_task`).
-/

set_option autoImplicit false

namespace UbuntuProjects.ThreadPool

open Concurrency

/-! ## Where the tasks are -/

section Tasks

variable {Tid P O : Type}

/-- The given task that has not been called, if that is what the object holds. -/
def PackagedTask.uncalled : PackagedTask → Option ℕ
  | .stored given _ false => given
  | _ => none

/-- The task that a call of the wrapper calls. -/
def World.taskOf (w : World Tid P O) (x : ℕ) : Option ℕ :=
  (w.mCallable[x]?).bind fun o => (w.objects o).bind PackagedTask.uncalled

/-- The given tasks at a place: those that its wrappers lead to, those that were called, and those
whose wrappers were destroyed uncalled. -/
def heldTasks (c : Config Tid (Thread P) (World Tid P O)) : Place Tid P → List ℕ
  | .shared .called => c.sh.ran.filterMap Prod.fst
  | .shared .destroyed => c.sh.pools.uncalled
  | k => (content (c.map World.pools) k).filterMap c.sh.taskOf

/-- The wrapper has been neither called nor destroyed. -/
def Shared.Pending (s : Shared Tid P) (x : ℕ) : Prop :=
  x ∉ s.tasks .called ∧ x ∉ s.tasks .destroyed

/-- A wrapper that has been neither called nor destroyed refers to the object. -/
def World.Awaits (w : World Tid P O) (o : O) : Prop :=
  ∃ x, w.mCallable[x]? = some o ∧ w.pools.Pending x

/-- The condition on a step: the task given to `assign_task` has not been called before, and a
client neither destroys nor changes an object that a wrapper refers to which has been neither
called nor destroyed, and does not call its task itself. -/
def KeepsTasks (c : Config Tid (Thread P) (World Tid P O)) (e : Tid × TaskLab P O) : Prop :=
  match e.2 with
  | .pool _ => True
  | .assignTask _ o => ∃ future, c.sh.objects o = some (.stored none future false)
  | .object op => ∀ o ∈ op.changes, ¬ c.sh.Awaits o

/-- What the pools see of a step. -/
def TaskLab.onPools : TaskLab P O → Option (Lab P)
  | .pool l => some l
  | .assignTask p _ => some (.assignTask p)
  | .object _ => none

/-- The condition, and one on the steps of the pools. -/
def Keeping (H : Config Tid (Thread P) (Shared Tid P) → Tid × Lab P → Prop)
    (c : Config Tid (Thread P) (World Tid P O)) (e : Tid × TaskLab P O) : Prop :=
  KeepsTasks c e ∧ ∀ l, e.2.onPools = some l → H (c.map World.pools) (e.1, l)

/-- The wrappers that have been neither called nor destroyed lead to the tasks they were made
for, and only the tasks of wrappers have been called. -/
structure Kept (w : World Tid P O) : Prop where
  length : w.mCallable.length = w.pools.given.length
  pending : ∀ x o, w.mCallable[x]? = some o → w.pools.Pending x →
    w.objects o = some (.stored (some x) true false)
  only : ∀ x o future, w.objects o = some (.stored (some x) future false) → w.pools.Pending x →
    w.mCallable[x]? = some o
  ran : w.ran = w.pools.called.map fun e => (some e.1, e.2)
  running : w.terminated = false

end Tasks

/-! ## Steps -/

section Steps

variable {Tid P : Type} [DecidableEq Tid] [DecidableEq P] {home : Tid → Option (P × ℕ)} {t : Tid}
  {th th' : Thread P} {s s' : Shared Tid P} {l : Lab P} {p : P} {x : ℕ}

/-- A thread that is about to call a wrapper calls it. -/
theorem PoolStep.of_aboutToCall (h : PoolStep home t th s l th' s') (hth : th.AboutToCall p x) :
    l = .step ∧ s' = { s with called := s.called ++ [(x, p)] } := by
  obtain ⟨rest, hframes⟩ := hth
  cases h with
  | call =>
    cases hframes
    exact ⟨rfl, rfl⟩
  | client h =>
    cases hframes
    cases h.runs
  | tryWork h =>
    cases hframes
    cases h
  | _ => cases hframes

/-- A call of `assign_task` makes the next wrapper. -/
theorem PoolStep.of_assignTask (h : PoolStep home t th s (.assignTask p) th' s') :
    s' = { s with given := s.given ++ [p] } := by
  cases h with
  | client h =>
    cases h
    rfl

/-- No other step makes or calls a wrapper, and what was destroyed stays so. -/
theorem PoolStep.books (h : PoolStep home t th s l th' s') (hl : ∀ p, l ≠ .assignTask p)
    (hth : ∀ p x, ¬ th.AboutToCall p x) :
    s'.given = s.given ∧ s'.called = s.called ∧ s.uncalled ⊆ s'.uncalled := by
  have hsame : s.uncalled ⊆ s.uncalled := List.Subset.refl _
  cases h with
  | client h =>
    cases h with
    | @assignTask _ _ p _ _ _ => exact absurd rfl (hl p)
    | _ => exact ⟨rfl, rfl, hsame⟩
  | assignTask h => cases h <;> exact ⟨rfl, rfl, hsame⟩
  | tryWork h => cases h <;> exact ⟨rfl, rfl, hsame⟩
  | @call _ _ p x rest => exact absurd ⟨rest, rfl⟩ (hth p x)
  | destroy h =>
    cases h with
    | innerQueue _ _ => exact ⟨rfl, rfl, List.subset_append_left ..⟩
    | queue _ _ => exact ⟨rfl, rfl, List.subset_append_left ..⟩
    | _ => exact ⟨rfl, rfl, hsame⟩
  | _ => exact ⟨rfl, rfl, hsame⟩

variable {O : Type} [DecidableEq O] {w w' : World Tid P O} {op : ObjectOp O}

omit [DecidableEq Tid] [DecidableEq P] in
theorem setObject_of_ne {o o' : O} {pt : Option PackagedTask} (h : o' ≠ o) :
    (w.setObject o pt).objects o' = w.objects o' :=
  Function.update_of_ne h ..

omit [DecidableEq Tid] [DecidableEq P] in
theorem setObject_self {o : O} {pt : Option PackagedTask} :
    (w.setObject o pt).objects o = pt :=
  Function.update_self ..

omit [DecidableEq Tid] [DecidableEq P] in
/-- A client changes only the objects that its operation names. -/
theorem ObjectStep.frame (h : ObjectStep op w w') :
    w' = { w with objects := w'.objects } ∧ ∀ o, o ∉ op.changes → w'.objects o = w.objects o := by
  cases h with
  | move _ _ =>
    refine ⟨rfl, fun o ho => ?_⟩
    have htarget := List.ne_of_not_mem_cons (List.not_mem_of_not_mem_cons ho)
    exact (setObject_of_ne (List.ne_of_not_mem_cons ho)).trans (setObject_of_ne htarget)
  | _ => exact ⟨rfl, fun o ho => setObject_of_ne (List.ne_of_not_mem_cons ho)⟩

omit [DecidableEq Tid] [DecidableEq P] in
/-- A given task that can be called was in one of the objects before. -/
theorem ObjectStep.held (h : ObjectStep op w w') {o : O} {future : Bool} (ho : o ∈ op.changes)
    (hx : w'.objects o = some (.stored (some x) future false)) :
    ∃ o' ∈ op.changes, ∃ future', w.objects o' = some (.stored (some x) future' false) := by
  cases h with
  | create =>
    cases List.mem_singleton.mp ho
    cases setObject_self.symm.trans hx
  | destroy _ =>
    cases List.mem_singleton.mp ho
    cases setObject_self.symm.trans hx
  | @move _ source target pt hne hsource =>
    rcases List.mem_cons.mp ho with rfl | ho
    · cases setObject_self.symm.trans hx
    · cases List.mem_singleton.mp ho
      rw [setObject_of_ne hne.symm, setObject_self] at hx
      exact ⟨source, List.mem_cons_self, future, hsource.trans hx⟩
  | getFuture hold =>
    cases List.mem_singleton.mp ho
    cases setObject_self.symm.trans hx
    exact ⟨o, List.mem_singleton_self o, false, hold⟩
  | call _ =>
    cases List.mem_singleton.mp ho
    cases setObject_self.symm.trans hx

end Steps

/-! ## The tasks are kept -/

section Keep

variable {Tid P O : Type} {home : Tid → Option (P × ℕ)}
  {c : Config Tid (Thread P) (World Tid P O)} {t : Tid} {x : ℕ} {k : Place Tid P}

/-- A wrapper that is in a queue or with a thread is pending. -/
theorem pending_of_mem
    (hcust : Custody (content (c.map World.pools)) c.sh.pools.given.length)
    (hx : x ∈ content (c.map World.pools) k) (hcalled : k ≠ .shared .called)
    (hdestroyed : k ≠ .shared .destroyed) : c.sh.pools.Pending x := by
  obtain ⟨j, hj⟩ := hcust.held x (hcust.issued x k hx)
  obtain rfl := hj.unique hx
  exact ⟨hj.2 (.shared .called) hcalled.symm, hj.2 (.shared .destroyed) hdestroyed.symm⟩

/-- A wrapper that is in a queue or with a thread leads to its own task. -/
theorem Kept.taskOf (hK : Kept c.sh)
    (hcust : Custody (content (c.map World.pools)) c.sh.pools.given.length)
    (hx : x ∈ content (c.map World.pools) k) (hcalled : k ≠ .shared .called)
    (hdestroyed : k ≠ .shared .destroyed) : c.sh.taskOf x = some x := by
  have hlt : x < c.sh.mCallable.length := hK.length ▸ hcust.issued x k hx
  have ho : c.sh.mCallable[x]? = some (c.sh.mCallable[x]) := List.getElem?_eq_getElem hlt
  rw [World.taskOf, ho, Option.bind_some,
    hK.pending x _ ho (pending_of_mem hcust hx hcalled hdestroyed)]
  rfl

/-- Each task is where its wrapper is. -/
theorem Kept.heldTasks_eq (hK : Kept c.sh)
    (hcust : Custody (content (c.map World.pools)) c.sh.pools.given.length) :
    heldTasks c = content (c.map World.pools) := by
  have hall : ∀ k, k ≠ .shared .called → k ≠ .shared .destroyed →
      (content (c.map World.pools) k).filterMap c.sh.taskOf = content (c.map World.pools) k := by
    intro k hcalled hdestroyed
    rw [List.filterMap_congr (g := some) fun x hx => hK.taskOf hcust hx hcalled hdestroyed]
    exact List.filterMap_some
  funext k
  cases k with
  | shared j =>
    cases j with
    | called =>
      show c.sh.ran.filterMap Prod.fst = c.sh.pools.called.map Prod.fst
      rw [hK.ran, List.filterMap_map]
      exact congrFun List.filterMap_eq_map _
    | destroyed => rfl
    | global p => exact hall _ (by simp) (by simp)
    | inner p i => exact hall _ (by simp) (by simp)
  | hands u => exact hall _ (by simp) (by simp)
  | current u => exact hall _ (by simp) (by simp)

/-- The wrapper that a thread is about to call leads to its task. -/
theorem Kept.aboutToCall (hK : Kept c.sh)
    (hcust : Custody (content (c.map World.pools)) c.sh.pools.given.length) {p : P} {o : O}
    (hth : (c.pc t).AboutToCall p x) (ho : c.sh.mCallable[x]? = some o) :
    c.sh.objects o = some (.stored (some x) true false) := by
  obtain ⟨rest, hframes⟩ := hth
  have hx : x ∈ content (c.map World.pools) (.current t) := by
    show x ∈ (c.pc t).currentTasks
    rw [Thread.currentTasks, hframes]
    exact List.mem_append_left _ (List.mem_singleton_self x)
  exact hK.pending x o ho (pending_of_mem hcust hx (by simp) (by simp))

/-- A task that no wrapper leads to, and that no pool has called or destroyed, is nowhere. -/
theorem not_mem_heldTasks
    (htask : ∀ k y, k ≠ .shared .called → k ≠ .shared .destroyed →
      y ∈ content (c.map World.pools) k → c.sh.taskOf y ≠ some x)
    (hran : ∀ p, (some x, p) ∉ c.sh.ran) (huncalled : x ∉ c.sh.pools.uncalled)
    (k : Place Tid P) : x ∉ heldTasks c k := by
  have hplace : ∀ k, k ≠ .shared .called → k ≠ .shared .destroyed →
      x ∉ (content (c.map World.pools) k).filterMap c.sh.taskOf := by
    intro k hcalled hdestroyed hx
    obtain ⟨y, hmem, hy⟩ := List.mem_filterMap.mp hx
    exact htask k y hcalled hdestroyed hmem hy
  cases k with
  | shared j =>
    cases j with
    | called =>
      intro hx
      obtain ⟨⟨g, p⟩, hmem, rfl⟩ := List.mem_filterMap.mp hx
      exact hran p hmem
    | destroyed => exact huncalled
    | global p => exact hplace _ (by simp) (by simp)
    | inner p i => exact hplace _ (by simp) (by simp)
  | hands u => exact hplace _ (by simp) (by simp)
  | current u => exact hplace _ (by simp) (by simp)

end Keep

/-! ## The tasks are kept over a step -/

section KeepSteps

variable {Tid P O : Type} {c : Config Tid (Thread P) (World Tid P O)} {t : Tid} {w w' : World Tid P O}
  {th' : Thread P} {s s' : Shared Tid P} {x : ℕ}

theorem Shared.Pending.of_grown (h : s'.Pending x) (hcalled : s.called ⊆ s'.called)
    (huncalled : s.uncalled ⊆ s'.uncalled) : s.Pending x :=
  ⟨fun hx => h.1 (List.map_subset _ hcalled hx), fun hx => h.2 (huncalled hx)⟩

/-- A step of the pools that makes no wrapper and calls none. -/
theorem Kept.pool (hK : Kept w) (hgiven : s'.given = w.pools.given)
    (hcalled : s'.called = w.pools.called) (huncalled : w.pools.uncalled ⊆ s'.uncalled) :
    Kept { w with pools := s' } where
  length := hK.length.trans (congrArg List.length hgiven).symm
  pending x o ho hx := hK.pending x o ho (hx.of_grown (hcalled ▸ List.Subset.refl _) huncalled)
  only x o future ho hx :=
    hK.only x o future ho (hx.of_grown (hcalled ▸ List.Subset.refl _) huncalled)
  ran := by rw [hcalled]; exact hK.ran
  running := hK.running

variable [DecidableEq O] {o : O}

omit [DecidableEq O] in
/-- An object that no wrapper waits for holds no task that a wrapper waits for. -/
theorem Kept.not_pending (hK : Kept w) (hno : ¬ w.Awaits o) {future : Bool}
    (ho : w.objects o = some (.stored (some x) future false)) : ¬ w.pools.Pending x :=
  fun hx => hno ⟨x, hK.only x o future ho hx, hx⟩

/-- A client changes objects that no wrapper waits for. -/
theorem Kept.object {op : ObjectOp O} (hK : Kept w) (hG : ∀ o ∈ op.changes, ¬ w.Awaits o)
    (h : ObjectStep op w w') : Kept w' := by
  obtain ⟨hw, hframe⟩ := h.frame
  have hpending : ∀ x o, w.mCallable[x]? = some o → w.pools.Pending x →
      w'.objects o = some (.stored (some x) true false) := fun x o ho hx =>
    (hframe o fun hmem => hG o hmem ⟨x, ho, hx⟩).trans (hK.pending x o ho hx)
  have honly : ∀ x o future, w'.objects o = some (.stored (some x) future false) →
      w.pools.Pending x → w.mCallable[x]? = some o := by
    intro x o future ho hx
    by_cases hmem : o ∈ op.changes
    · obtain ⟨o', ho', future', hold⟩ := h.held hmem ho
      exact absurd hx (hK.not_pending (hG o' ho') hold)
    · exact hK.only x o future ((hframe o hmem).symm.trans ho) hx
  rw [hw]
  exact ⟨hK.length, hpending, honly, hK.ran, hK.running⟩

/-- An object with a task that has not been called is given to `assign_task`. -/
theorem Kept.assign (hK : Kept w) {future : Bool} {p : P}
    (ho : w.objects o = some (.stored none future false)) :
    Kept { w.setObject o (some (.stored (some w.pools.given.length) true false)) with
      pools := { w.pools with given := w.pools.given ++ [p] }, mCallable := w.mCallable ++ [o] } where
  length := by simp [hK.length]
  pending x o' ho' hx := by
    rcases getElem?_snoc_cases ho' with hold | ⟨hlast, rfl⟩
    · have hpending := hK.pending x o' hold hx
      have hne : o' ≠ o := by
        rintro rfl
        cases hpending.symm.trans ho
      exact (setObject_of_ne hne).trans hpending
    · rw [hlast, hK.length]
      exact setObject_self
  only x o' future' ho' hx := by
    by_cases hoo : o' = o
    · subst hoo
      rw [show _ = _ from setObject_self] at ho'
      cases ho'
      rw [← hK.length, List.getElem?_concat_length]
    · have hold := hK.only x o' future' ((setObject_of_ne hoo).symm.trans ho') hx
      exact getElem?_snoc_of_some hold
  ran := hK.ran
  running := hK.running

/-- A wrapper is called that leads to its own task. -/
theorem Kept.call (hK : Kept w) {p : P} (ho : w.objects o = some (.stored (some x) true false)) :
    Kept { w.setObject o (some (.stored (some x) true true)) with
      pools := { w.pools with called := w.pools.called ++ [(x, p)] }
      ran := w.ran ++ [(some x, p)] } where
  length := hK.length
  pending y o' ho' hy := by
    have hpending := hK.pending y o' ho' (hy.of_grown (List.subset_append_left ..) (List.Subset.refl _))
    have hne : o' ≠ o := by
      rintro rfl
      cases ho.symm.trans hpending
      exact hy.1 (by simp [Shared.tasks])
    exact (setObject_of_ne hne).trans hpending
  only y o' future ho' hy := by
    have hne : o' ≠ o := by
      rintro rfl
      cases ho'.symm.trans setObject_self
    exact hK.only y o' future ((setObject_of_ne hne).symm.trans ho')
      (hy.of_grown (List.subset_append_left ..) (List.Subset.refl _))
  ran := by simp [hK.ran]
  running := hK.running

variable [DecidableEq Tid] [DecidableEq P] {home : Tid → Option (P × ℕ)} {l : TaskLab P O}
  {H : Config Tid (Thread P) (Shared Tid P) → Tid × Lab P → Prop}

/-- A step that meets the condition keeps the tasks, and the pools see one of their steps or
none. -/
theorem Kept.step (hK : Kept c.sh)
    (hcust : Custody (content (c.map World.pools)) c.sh.pools.given.length)
    (hG : Keeping H c (t, l)) (h : TaskStep home t (c.pc t) c.sh l th' w') :
    SeenBelow (PoolStep home) H World.pools c t th' w' l.onPools ∧ Kept w' := by
  obtain ⟨hkeep, hH⟩ := hG
  have habout : ∀ p x o, (c.pc t).AboutToCall p x → c.sh.mCallable[x]? = some o →
      c.sh.objects o = some (.stored (some x) true false) :=
    fun p x o => hK.aboutToCall hcust
  unfold SeenBelow
  generalize c.pc t = th at h habout
  cases h with
  | @pool _ _ _ l' _ hrun hl hth hstep =>
    obtain ⟨hgiven, hcalled, huncalled⟩ := hstep.books hl hth
    exact ⟨⟨hH l' rfl, hstep⟩, hK.pool hgiven hcalled huncalled⟩
  | object hrun hf hop =>
    exact ⟨⟨rfl, by rw [hop.frame.1]⟩, hK.object hkeep hop⟩
  | @assignTask _ _ _ p o called _ hrun ho hstep =>
    obtain ⟨future, ho'⟩ := hkeep
    cases ho.symm.trans ho'
    obtain rfl := hstep.of_assignTask
    exact ⟨⟨hH _ rfl, hstep⟩, hK.assign ho⟩
  | @call _ _ _ p x o g future _ hrun hth hmc ho hstep =>
    cases ho.symm.trans (habout p x o hth hmc)
    obtain ⟨-, rfl⟩ := hstep.of_aboutToCall hth
    exact ⟨⟨hH _ rfl, hstep⟩, hK.call ho⟩
  | callThrows hrun hmc ho hno hf =>
    -- the wrapper leads to a task that can be called
    cases ho.symm.trans (habout _ _ _ ⟨_, rfl⟩ hmc)
    cases hno
  | callTerminates hrun hmc ho hno hD =>
    cases ho.symm.trans (habout _ _ _ ⟨_, rfl⟩ hmc)
    cases hno

/-- With the tasks kept, each silent step of the pools can be taken. -/
theorem Kept.follow {s' : Shared Tid P} (hK : Kept c.sh)
    (hcust : Custody (content (c.map World.pools)) c.sh.pools.given.length)
    (h : PoolStep home t (c.pc t) c.sh.pools .step th' s') :
    ∃ w', TaskStep home t (c.pc t) c.sh (.pool .step) th' w' ∧ w'.pools = s' ∧ Kept w' := by
  by_cases hth : ∃ p x, (c.pc t).AboutToCall p x
  · obtain ⟨p, x, hth⟩ := hth
    have hlt : x < c.sh.mCallable.length := by
      obtain ⟨rest, hframes⟩ := hth
      rw [hK.length]
      apply hcust.issued x (.current t)
      show x ∈ (c.pc t).currentTasks
      rw [Thread.currentTasks, hframes]
      exact List.mem_append_left _ (List.mem_singleton_self x)
    have hmc : c.sh.mCallable[x]? = some (c.sh.mCallable[x]) := List.getElem?_eq_getElem hlt
    have ho := hK.aboutToCall hcust hth hmc
    refine ⟨_, .call hK.running hth hmc ho h, rfl, ?_⟩
    obtain ⟨-, rfl⟩ := h.of_aboutToCall hth
    exact hK.call ho
  · have hno : ∀ p x, ¬ (c.pc t).AboutToCall p x := fun p x h => hth ⟨p, x, h⟩
    obtain ⟨hgiven, hcalled, huncalled⟩ := h.books (fun p => by simp) hno
    exact ⟨_, .pool hK.running (fun p => by simp) hno h, rfl, hK.pool hgiven hcalled huncalled⟩

/-! ### Where the condition fails -/

omit [DecidableEq Tid] [DecidableEq P] [DecidableEq O] in
theorem taskOf_eq_some {y : ℕ} (h : w.taskOf y = some x) :
    ∃ o future, w.mCallable[y]? = some o ∧ w.objects o = some (.stored (some x) future false) := by
  obtain ⟨o, ho, hbind⟩ := Option.bind_eq_some_iff.mp h
  obtain ⟨pt, hpt, hx⟩ := Option.bind_eq_some_iff.mp hbind
  cases pt with
  | empty => cases hx
  | stored g future called =>
    cases called with
    | true => cases hx
    | false =>
      cases hx
      exact ⟨o, future, ho, hpt⟩

omit [DecidableEq Tid] [DecidableEq P] in
/-- If the object of a wrapper that waits for it is changed, and no object that a wrapper waits
for takes the task over, then no wrapper that waits leads to the task. -/
theorem Kept.not_led_of_changed (hK : Kept w) {op : ObjectOp O} (h : ObjectStep op w w')
    (ho : o ∈ op.changes) (hx : w.mCallable[x]? = some o)
    (hover : ∀ o' ∈ op.changes, w.Awaits o' → ∀ future,
      w'.objects o' ≠ some (.stored (some x) future false)) {y : ℕ} (hy : w.pools.Pending y) :
    w'.taskOf y ≠ some x := by
  intro hlead
  obtain ⟨hw, hframe⟩ := h.frame
  obtain ⟨o', future, hy', ho'⟩ := taskOf_eq_some hlead
  have hmc : w.mCallable[y]? = some o' := by
    rw [hw] at hy'
    exact hy'
  by_cases hmem : o' ∈ op.changes
  · exact hover o' hmem ⟨y, hmc, hy⟩ future ho'
  · cases (hK.pending y o' hmc hy).symm.trans ((hframe o' hmem).symm.trans ho')
    cases hx.symm.trans hmc
    exact hmem ho

omit [DecidableEq Tid] [DecidableEq P] in
/-- A client changes an object that a wrapper waits for: the wrappers that are left do not lead
to all their tasks any more. -/
theorem Kept.not_led (hK : Kept w) {op : ObjectOp O} (h : ObjectStep op w w')
    (ho : o ∈ op.changes) (hwait : w.Awaits o) :
    ∃ x, x < w.mCallable.length ∧ w.pools.Pending x ∧
      ∀ y, w.pools.Pending y → w'.taskOf y ≠ some x := by
  have hself : ∀ {o pt x future}, ¬ pt = some (.stored (some x) future false) →
      (w.setObject o pt).objects o ≠ some (.stored (some x) future false) :=
    fun hpt hset => hpt (setObject_self.symm.trans hset)
  obtain ⟨x, hx, hpending⟩ := hwait
  have hlt : ∀ {x o}, w.mCallable[x]? = some o → x < w.mCallable.length :=
    fun hx => (List.getElem?_eq_some_iff.mp hx).1
  have hold := hK.pending x o hx hpending
  cases h with
  | create =>
    cases List.mem_singleton.mp ho
    refine ⟨x, hlt hx, hpending, fun y => hK.not_led_of_changed .create ho hx ?_⟩
    intro o' ho' _ future
    cases List.mem_singleton.mp ho'
    exact hself (by simp)
  | destroy hd =>
    cases List.mem_singleton.mp ho
    refine ⟨x, hlt hx, hpending, fun y => hK.not_led_of_changed (.destroy hd) ho hx ?_⟩
    intro o' ho' _ future
    cases List.mem_singleton.mp ho'
    exact hself (by simp)
  | getFuture hf =>
    cases List.mem_singleton.mp ho
    cases hold.symm.trans hf
  | call hc =>
    cases List.mem_singleton.mp ho
    refine ⟨x, hlt hx, hpending, fun y => hK.not_led_of_changed (.call hc) ho hx ?_⟩
    intro o' ho' _ future
    cases List.mem_singleton.mp ho'
    exact hself (by simp)
  | @move _ source target pt hne hsource =>
    have hempty : ∀ {x future}, ((w.setObject target (some pt)).setObject source
        (some .empty)).objects source ≠ some (.stored (some x) future false) := by
      intro x future hset
      cases setObject_self.symm.trans hset
    by_cases htarget : w.Awaits target
    · -- the task of the target is overwritten
      obtain ⟨z, hz, hzp⟩ := htarget
      refine ⟨z, hlt hz, hzp, fun y => hK.not_led_of_changed (.move hne hsource)
        (List.mem_cons_of_mem _ (List.mem_singleton_self _)) hz ?_⟩
      intro o' ho' _ future hset
      rcases List.mem_cons.mp ho' with rfl | ho'
      · exact hempty hset
      · cases List.mem_singleton.mp ho'
        rw [setObject_of_ne hne.symm, setObject_self] at hset
        cases (hK.only z source future (hsource.trans hset) hzp).symm.trans hz
        exact hne rfl
    · -- the task of the source goes where no wrapper waits
      refine ⟨x, hlt hx, hpending, fun y => hK.not_led_of_changed (.move hne hsource) ho hx ?_⟩
      intro o' ho' hwait' future hset
      rcases List.mem_cons.mp ho' with rfl | ho'
      · exact hempty hset
      · exact htarget (List.mem_singleton.mp ho' ▸ hwait')

omit [DecidableEq Tid] [DecidableEq P] [DecidableEq O] in
/-- No pool has called a task that a wrapper waits for. -/
theorem Kept.not_ran (hK : Kept w) (hx : w.pools.Pending x) (p : P) : (some x, p) ∉ w.ran := by
  intro hran
  rw [hK.ran] at hran
  obtain ⟨⟨y, q⟩, hy, heq⟩ := List.mem_map.mp hran
  cases heq
  exact hx.1 (List.mem_map_of_mem hy)

omit [DecidableEq Tid] [DecidableEq P] in
/-- A client changes an object that a wrapper waits for. -/
theorem Kept.lost_of_object (hK : Kept c.sh)
    (hcust : Custody (content (c.map World.pools)) c.sh.pools.given.length) {op : ObjectOp O}
    (h : ObjectStep op c.sh w') (ho : o ∈ op.changes) (hwait : c.sh.Awaits o) :
    ∃ x, x < w'.pools.given.length ∧ ∀ k, x ∉ heldTasks (⟨c.pc, w'⟩ : Config Tid _ _) k := by
  obtain ⟨x, hlt, hpending, hnone⟩ := hK.not_led h ho hwait
  obtain ⟨hw, -⟩ := h.frame
  have hpools : w'.pools = c.sh.pools := by rw [hw]
  have hran : w'.ran = c.sh.ran := by rw [hw]
  rw [hpools, ← hK.length]
  refine ⟨x, hlt, not_mem_heldTasks (fun k y hcalled hdestroyed hy => ?_) (fun p hx => ?_) ?_⟩
  · have hy' : y ∈ content (c.map World.pools) k := by
      rwa [Config.map, hpools] at hy
    exact hnone y (pending_of_mem hcust hy' hcalled hdestroyed)
  · exact hK.not_ran hpending p (hran ▸ hx)
  · show x ∉ w'.pools.uncalled
    rw [hpools]
    exact hpending.2

theorem TaskStep.of_object {th : Thread P} {op : ObjectOp O}
    (h : TaskStep home t th w (.object op) th' w') : th' = th ∧ ObjectStep op w w' := by
  cases h with
  | object _ _ hop => exact ⟨rfl, hop⟩

theorem TaskStep.of_assignTask {th : Thread P} {p : P}
    (h : TaskStep home t th w (.assignTask p o) th' w') :
    ∃ called, w.objects o = some (.stored none false called) ∧
      w' = { w.setObject o (some (.stored (some w.pools.given.length) true called)) with
        pools := { w.pools with given := w.pools.given ++ [p] }
        mCallable := w.mCallable ++ [o] } := by
  cases h with
  | assignTask _ ho hstep =>
    obtain rfl := hstep.of_assignTask
    exact ⟨_, ho, rfl⟩

/-- The task given to `assign_task` was called before. -/
theorem Kept.lost_of_called (hK : Kept c.sh)
    (hcust : Custody (content (c.map World.pools)) c.sh.pools.given.length) {p : P}
    (hcalled : ∀ future, c.sh.objects o ≠ some (.stored none future false))
    (h : TaskStep home t (c.pc t) c.sh (.assignTask p o) th' w') :
    ∃ x, x < w'.pools.given.length ∧
      ∀ k, x ∉ heldTasks (⟨Function.update c.pc t th', w'⟩ : Config Tid _ _) k := by
  have hnew : ∀ k, c.sh.pools.given.length ∉ content (c.map World.pools) k :=
    fun k hx => Nat.lt_irrefl _ (hcust.issued _ k hx)
  have hpending : c.sh.pools.Pending c.sh.pools.given.length :=
    ⟨hnew (.shared .called), hnew (.shared .destroyed)⟩
  obtain ⟨called, ho, rfl⟩ := h.of_assignTask
  refine ⟨c.sh.pools.given.length, by simp, not_mem_heldTasks (fun k y _ _ _ hy => ?_)
    (hK.not_ran hpending) hpending.2⟩
  obtain ⟨o', future', -, hleads⟩ := taskOf_eq_some hy
  by_cases hoo : o' = o
  · subst hoo
    cases setObject_self.symm.trans hleads
    exact hcalled false ho
  · have hlast := hK.only _ o' future' ((setObject_of_ne hoo).symm.trans hleads) hpending
    rw [← hK.length] at hlast
    exact Nat.lt_irrefl _ (List.getElem?_eq_some_iff.mp hlast).1

/-- A step that breaks the condition loses a task at once. -/
theorem Kept.lost (hK : Kept c.sh)
    (hcust : Custody (content (c.map World.pools)) c.sh.pools.given.length)
    (hG : ¬ KeepsTasks c (t, l)) (h : TaskStep home t (c.pc t) c.sh l th' w') :
    ∃ x, x < w'.pools.given.length ∧
      ∀ k, x ∉ heldTasks (⟨Function.update c.pc t th', w'⟩ : Config Tid _ _) k := by
  cases l with
  | pool l => exact absurd trivial hG
  | assignTask p o => exact hK.lost_of_called hcust (fun future ho => hG ⟨future, ho⟩) h
  | object op =>
    obtain ⟨o, ho, hwait⟩ : ∃ o ∈ op.changes, c.sh.Awaits o := by
      by_contra hno
      exact hG fun o ho hwait => hno ⟨o, ho, hwait⟩
    obtain ⟨rfl, hop⟩ := h.of_object
    rw [Function.update_eq_self]
    exact hK.lost_of_object hcust hop ho hwait

/-! ## Runs -/

omit [DecidableEq Tid] [DecidableEq P] [DecidableEq O] in
theorem kept_start : Kept (taskStart home : Config Tid (Thread P) (World Tid P O)).sh where
  length := rfl
  pending x o h := by cases h
  only x o future h := by cases h
  ran := rfl
  running := rfl

/-- A run that meets the condition is a run of the pools, and keeps the tasks. -/
theorem kept_run {tr : List (Tid × TaskLab P O)}
    (h : Run (TaskStep home) (Keeping H) (taskStart home) tr c) :
    Run (PoolStep home) H (start home) (observed TaskLab.onPools tr) (c.map World.pools) ∧
      Kept c.sh := by
  refine h.project World.pools TaskLab.onPools (fun c => Kept c.sh) kept_start ?_
  intro tr c t l th' w' hrun hK hG hstep
  exact hK.step (custody_run hrun) hG hstep

end KeepSteps

/-! ## Exactly once -/

section Once

variable {Tid P O : Type} [DecidableEq Tid] [DecidableEq P] [DecidableEq O]
  {home : Tid → Option (P × ℕ)} {c : Config Tid (Thread P) (World Tid P O)} {t : Tid}

/-- The wrapper that the frame is about to call. -/
def Frame.wrapper : Frame P → Option ℕ
  | .tryWork _ (.call x) => some x
  | _ => none

/-- A step of the pools that is no call of a client and calls no wrapper. -/
theorem TaskStep.silent {own : Option (P × ℕ)} {index : ℤ} {f : Frame P} {rest : List (Frame P)}
    {th' : Thread P} {w : World Tid P O} {s' : Shared Tid P} (hrun : w.terminated = false)
    (hf : f.wrapper = none)
    (h : PoolStep home t ⟨own, index, f :: rest⟩ w.pools .step th' s') :
    TaskStep home t ⟨own, index, f :: rest⟩ w (.pool .step) th' { w with pools := s' } := by
  refine .pool hrun (fun p => by simp) (fun p x => ?_) h
  rintro ⟨rest', heq⟩
  cases heq
  cases hf

/-- A call of a client on a pool, other than `assign_task`. -/
theorem TaskStep.clientCall {own : Option (P × ℕ)} {index : ℤ} {f : Frame P}
    {fs rest : List (Frame P)} {w : World Tid P O} {l : Lab P} {s' : Shared Tid P}
    (hrun : w.terminated = false) (hl : ∀ p, l ≠ .assignTask p)
    (h : ClientStep f w.pools l fs s') :
    TaskStep home t ⟨own, index, f :: rest⟩ w (.pool l) ⟨own, index, fs ++ rest⟩
      { w with pools := s' } := by
  refine .pool hrun hl (fun p x => ?_) (.client h)
  rintro ⟨rest', heq⟩
  cases heq
  cases h.runs

omit [DecidableEq Tid] [DecidableEq P] [DecidableEq O] in
theorem keepsTasks_pool {l : Lab P} : KeepsTasks c (t, .pool l) :=
  trivial

omit [DecidableEq Tid] [DecidableEq P] [DecidableEq O] in
theorem keepsTasks_assign {p : P} {o : O} {future : Bool}
    (ho : c.sh.objects o = some (.stored none future false)) : KeepsTasks c (t, .assignTask p o) :=
  ⟨future, ho⟩

omit [DecidableEq Tid] [DecidableEq P] [DecidableEq O] in
/-- A client may make an object where none is that a wrapper has referred to. -/
theorem keepsTasks_create {o : O} (h : o ∉ c.sh.mCallable) :
    KeepsTasks c (t, .object (.create o)) := by
  rintro o' ho ⟨x, hx, -⟩
  cases List.mem_singleton.mp ho
  exact h (List.mem_of_getElem? hx)

variable {H : Config Tid (Thread P) (Shared Tid P) → Tid × Lab P → Prop}

omit [DecidableEq Tid] [DecidableEq P] [DecidableEq O] in
theorem keeping_pool {l : Lab P} (h : H (c.map World.pools) (t, l)) : Keeping H c (t, .pool l) := by
  refine ⟨keepsTasks_pool, fun l' hl => ?_⟩
  cases hl
  exact h

omit [DecidableEq Tid] [DecidableEq P] [DecidableEq O] in
theorem keeping_assign {p : P} {o : O} {future : Bool}
    (ho : c.sh.objects o = some (.stored none future false))
    (h : H (c.map World.pools) (t, .assignTask p)) : Keeping H c (t, .assignTask p o) := by
  refine ⟨keepsTasks_assign ho, fun l' hl => ?_⟩
  cases hl
  exact h

omit [DecidableEq Tid] [DecidableEq P] [DecidableEq O] in
theorem keeping_create {o : O} (h : o ∉ c.sh.mCallable) :
    Keeping H c (t, .object (.create o)) :=
  ⟨keepsTasks_create h, fun l' hl => by cases hl⟩

end Once

/-! ### Runs with one task -/

end UbuntuProjects.ThreadPool
