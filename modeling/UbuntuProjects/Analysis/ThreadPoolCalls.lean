import UbuntuProjects.Analysis.ThreadPoolUse
import UbuntuProjects.Concurrency.Progress

/-!
# The calls on the pools return

Each call has a rank (`Frame.rank`), and a thread in a call that nobody hinders has a step that
lowers it (`WellUsed.call_step`). First the threads that own mutexes give them back
(`WellUsed.unlock`), then the calls are finished one thread after the other
(`WellUsed.finish_calls`).
-/

set_option autoImplicit false

namespace UbuntuProjects.ThreadPool

open Concurrency

/-! ## The rank of a call -/

/-- How many steps `try_work` has left at most in a pool of `n` inner queues, a task counting as
one step. -/
def WorkStage.rank (n : ℕ) : WorkStage → ℕ
  | .start => 4 * n + 8
  | .lockOwn => 4 * n + 7
  | .popOwn => 4 * n + 6
  | .unlockOwn _ => 4 * n + 5
  | .popGlobal => 4 * n + 4
  | .steal i => 4 * (n - i) + 3
  | .lockSteal i => 4 * (n - i) + 2
  | .popSteal i => 4 * (n - i) + 1
  | .unlockSteal i _ => 4 * (n - i)
  | .call _ => 3
  | .calling _ => 1

def AssignStage.rank : AssignStage → ℕ
  | .start => 4
  | .lockOwn => 3
  | .push => 2
  | .unlockOwn => 1
  | .pushGlobal => 1

def WorkerStage.rank : WorkerStage → ℕ
  | .initIndex => 3
  | .initQueue => 2
  | .loop => 1

def DestroyStage.rank (n : ℕ) : DestroyStage → ℕ
  | .stop => n + 3
  | .joinThreads => n + 2
  | .queues => n + 1

section Ranks

variable {Tid P : Type}

def Frame.rank (width : P → ℕ) : Frame P → ℕ
  | .client => 0
  | .worker _ _ stage => stage.rank
  | .exited => 0
  | .task => 1
  | .tryWork p stage => stage.rank (width p)
  | .assignTask _ _ stage => stage.rank
  | .destroy p stage => stage.rank (width p)

/-- The rank of all calls of a thread. -/
def Thread.rank (width : P → ℕ) (th : Thread P) : ℕ :=
  (th.frames.map (Frame.rank width)).sum

variable {own : Option (P × ℕ)} {index : ℤ} {f : Frame P} {fs rest : List (Frame P)}
  {width : P → ℕ}

/-- Only the top of the stack makes a step. -/
theorem rank_lt_of_top (h : (fs.map (Frame.rank width)).sum < f.rank width) :
    (⟨own, index, fs ++ rest⟩ : Thread P).rank width <
      (⟨own, index, f :: rest⟩ : Thread P).rank width := by
  simp only [Thread.rank, List.map_append, List.sum_append, List.map_cons, List.sum_cons]
  omega

end Ranks

/-! ## A call can go on -/

section Going

variable {Tid P : Type} [DecidableEq Tid] [DecidableEq P] {home : Tid → Option (P × ℕ)}
  {c : Config Tid (Thread P) (Shared Tid P)} {t : Tid} {p : P} {f : Frame P}
  {rest : List (Frame P)}

/-- The mutexes that the thread may want are free. -/
def Unhindered (c : Config Tid (Thread P) (Shared Tid P)) (t : Tid) : Prop :=
  (c.pc t).locked c.sh.width = none → ∀ q i, c.sh.owner q i = none

omit [DecidableEq Tid] [DecidableEq P] in
/-- If nobody else has locked an inner queue, no thread hinders this one. -/
theorem WellUsed.unhindered (hW : WellUsed home c)
    (hothers : ∀ u, u ≠ t → (c.pc u).locked c.sh.width = none) : Unhindered c t := by
  intro ht q i
  cases hown : c.sh.owner q i with
  | none => rfl
  | some u =>
    have hlocked := hW.locks q i u hown
    by_cases hut : u = t
    · cases hut
      cases ht.symm.trans hlocked
    · cases (hothers u hut).symm.trans hlocked

omit [DecidableEq Tid] [DecidableEq P] in
theorem Unhindered.free (hfree : Unhindered c t) (hf : (c.pc t).frames = f :: rest)
    (hlocked : f.locked (c.pc t).tlPInnerQueue (c.pc t).tlThreadIndex c.sh.width = none)
    {q : P} {i : ℕ} {D : Pool Tid} {iq : InnerQueue Tid} (hD : c.sh.pools q = some D)
    (hi : D.mInnerQueues[i]? = some iq) : iq.mMut = none := by
  rw [← owner_eq hD hi]
  exact hfree ((locked_of_top hf).trans hlocked) q i

omit [DecidableEq Tid] [DecidableEq P] in
/-- The inner queue of a thread in a call is there. -/
theorem WellUsed.own_queue (hW : WellUsed home c) (hf : (c.pc t).frames = f :: rest)
    (hcall : f.isCall) (huse : f.usesOwn) : ∃ q i D iq, (c.pc t).tlPInnerQueue = some (q, i) ∧
      c.sh.pools q = some D ∧ D.mInnerQueues[i]? = some iq := by
  obtain ⟨⟨q, i⟩, hown⟩ :=
    Option.ne_none_iff_exists'.mp (hW.uses t f (hf ▸ List.mem_cons_self) huse)
  obtain ⟨hhome, hstarted⟩ := hW.own t q i hown
  have hworking : (c.pc t).Working q i := by
    refine ⟨fun hx => hstarted (hx ▸ List.mem_cons_self), fun hx => ?_⟩
    cases hf.symm.trans hx
    exact hcall
  obtain ⟨n, hn, hi⟩ := hW.lifetimes.working t q i hhome hworking
  obtain ⟨D, hD⟩ := alive_of_workers hn
  cases hn.symm.trans (workers_eq hD)
  exact ⟨q, i, D, _, hown, hD, List.getElem?_eq_getElem hi⟩

omit [DecidableEq Tid] in
/-- A call of `assign_task` can go on. -/
theorem WellUsed.assign_step (hW : WellUsed home c) {x : ℕ} {stage : AssignStage}
    (hf : (c.pc t).frames = .assignTask p x stage :: rest) (hfree : Unhindered c t) :
    ∃ next s', AssignStep t (c.pc t).tlPInnerQueue p x stage c.sh next s' ∧
      s'.width = c.sh.width ∧ next.elim 0 AssignStage.rank < stage.rank := by
  have hown := hW.own_queue hf trivial
  cases stage with
  | start =>
    cases hq : (c.pc t).tlPInnerQueue with
    | none => exact ⟨_, _, .startGlobal rfl, rfl, by decide⟩
    | some qi => exact ⟨_, _, .startOwn rfl, rfl, by decide⟩
  | lockOwn =>
    obtain ⟨q, i, D, iq, hq, hD, hi⟩ := hown trivial
    exact ⟨_, _, .lockOwn hq hD hi (hfree.free hf rfl hD hi), width_setInner hD, by decide⟩
  | push =>
    obtain ⟨q, i, D, iq, hq, hD, hi⟩ := hown trivial
    exact ⟨_, _, .push hq hD hi, width_setInner hD, by decide⟩
  | unlockOwn =>
    obtain ⟨q, i, D, iq, hq, hD, hi⟩ := hown trivial
    exact ⟨_, _, .unlockOwn hq hD hi, width_setInner hD, by decide⟩
  | pushGlobal =>
    obtain ⟨D, hD⟩ := hW.alive t p _ (hf ▸ List.mem_cons_self) rfl
    exact ⟨_, _, .pushGlobal hD, width_setPool hD rfl, by decide⟩

omit [DecidableEq Tid] in
/-- A call of `try_work` can go on, unless it has a task to call. -/
theorem WellUsed.work_step (hW : WellUsed home c) {stage : WorkStage}
    (hf : (c.pc t).frames = .tryWork p stage :: rest) (hfree : Unhindered c t)
    (hstage : ∀ x, stage ≠ .call x) :
    ∃ next s', WorkStep t (c.pc t).tlPInnerQueue (c.pc t).tlThreadIndex p stage c.sh next s' ∧
      s'.width = c.sh.width ∧
      next.elim 0 (WorkStage.rank (c.sh.width p)) < stage.rank (c.sh.width p) := by
  have hmem : .tryWork p stage ∈ (c.pc t).frames := hf ▸ List.mem_cons_self
  obtain ⟨D, hD⟩ := hW.alive t p _ hmem rfl
  have hwidth := width_eq hD
  have hown := hW.own_queue hf trivial
  have hround : ∀ i, stage.round = some i → i < D.mInnerQueues.length ∧
      ∃ iq, D.mInnerQueues[stealIndex (c.pc t).tlThreadIndex i D.mInnerQueues.length]? =
        some iq := by
    intro i hi
    have hlt := hW.rounds t p stage i _ hmem hi (workers_eq hD)
    exact ⟨hlt, _, List.getElem?_eq_getElem (Nat.mod_lt _ (by omega))⟩
  rw [hwidth]
  cases stage with
  | start =>
    cases hq : (c.pc t).tlPInnerQueue with
    | none => exact ⟨_, _, .startGlobal rfl, rfl, by simp [WorkStage.rank]⟩
    | some qi => exact ⟨_, _, .startOwn rfl, rfl, by simp [WorkStage.rank]⟩
  | lockOwn =>
    obtain ⟨q, i, D', iq, hq, hD', hi⟩ := hown trivial
    have hmut := hfree.free hf rfl hD' hi
    exact ⟨_, _, .lockOwn hq hD' hi hmut, width_setInner hD', by simp [WorkStage.rank]⟩
  | popOwn =>
    obtain ⟨q, i, D', iq, hq, hD', hi⟩ := hown trivial
    cases hqueue : iq.mQueue with
    | nil => exact ⟨_, _, .popOwnEmpty hq hD' hi hqueue, rfl, by simp [WorkStage.rank]⟩
    | cons x xs =>
      exact ⟨_, _, .popOwn hq hD' hi hqueue, width_setInner hD', by simp [WorkStage.rank]⟩
  | unlockOwn task =>
    obtain ⟨q, i, D', iq, hq, hD', hi⟩ := hown trivial
    refine ⟨_, _, .unlockOwn hq hD' hi, width_setInner hD', ?_⟩
    cases task <;> simp [afterPopOwn, WorkStage.rank]
  | popGlobal =>
    cases hqueue : D.mQueue with
    | nil => exact ⟨_, _, .popGlobalEmpty hD hqueue, rfl, by simp [WorkStage.rank]⟩
    | cons x xs =>
      exact ⟨_, _, .popGlobal hD hqueue, width_setPool hD rfl, by simp [WorkStage.rank]⟩
  | steal i =>
    by_cases hlt : i < D.mInnerQueues.length
    · exact ⟨_, _, .steal hD hlt, rfl, by simp [WorkStage.rank]⟩
    · exact ⟨_, _, .stealEnd hD (by omega), rfl, by simp [WorkStage.rank]⟩
  | lockSteal i =>
    obtain ⟨hlt, iq, hi⟩ := hround i rfl
    have hmut := hfree.free hf rfl hD hi
    exact ⟨_, _, .lockSteal hD rfl hi hmut, width_setInner hD, by simp [WorkStage.rank]⟩
  | popSteal i =>
    obtain ⟨hlt, iq, hi⟩ := hround i rfl
    rcases List.eq_nil_or_concat iq.mQueue with hqueue | ⟨xs, x, hqueue⟩
    · exact ⟨_, _, .popStealEmpty hD rfl hi hqueue, rfl, by simp [WorkStage.rank]⟩
    · rw [List.concat_eq_append] at hqueue
      exact ⟨_, _, .popSteal hD rfl hi hqueue, width_setInner hD, by simp [WorkStage.rank]⟩
  | unlockSteal i task =>
    obtain ⟨hlt, iq, hi⟩ := hround i rfl
    refine ⟨_, _, .unlockSteal hD rfl hi, width_setInner hD, ?_⟩
    cases task <;> simp [afterSteal, WorkStage.rank] <;> omega
  | call x => exact absurd rfl (hstage x)
  | calling x => exact ⟨_, _, .calling, rfl, by simp [WorkStage.rank]⟩

/-- What a call may wait for: a destructor joins the workers. -/
def Frame.joins : Frame P → Prop
  | .destroy _ .joinThreads => True
  | _ => False

omit [DecidableEq Tid] [DecidableEq P] in
theorem thread_eq (hf : (c.pc t).frames = f :: rest) :
    c.pc t = ⟨(c.pc t).tlPInnerQueue, (c.pc t).tlThreadIndex, f :: rest⟩ := by
  rw [← hf]

/-- INTERNAL: a step of the top frame lowers the rank of the thread. -/
theorem exists_lower (fs : List (Frame P)) {s' : Shared Tid P}
    (hf : (c.pc t).frames = f :: rest)
    (h : PoolStep home t ⟨(c.pc t).tlPInnerQueue, (c.pc t).tlThreadIndex, f :: rest⟩ c.sh .step
      ⟨(c.pc t).tlPInnerQueue, (c.pc t).tlThreadIndex, fs ++ rest⟩ s')
    (hwidth : s'.width = c.sh.width)
    (hrank : (fs.map (Frame.rank c.sh.width)).sum < f.rank c.sh.width) :
    ∃ th' s', PoolStep home t (c.pc t) c.sh .step th' s' ∧
      th'.rank s'.width < (c.pc t).rank c.sh.width := by
  rw [← thread_eq hf] at h
  refine ⟨_, _, h, ?_⟩
  rw [hwidth, thread_eq hf]
  exact rank_lt_of_top hrank

/-- The destructor destroys one queue after the other. -/
theorem WellUsed.queues_step (hW : WellUsed home c)
    (hf : (c.pc t).frames = [.destroy p .queues, .client]) :
    ∃ th' s', PoolStep home t (c.pc t) c.sh .step th' s' ∧
      th'.rank s'.width < (c.pc t).rank c.sh.width ∧
      (th'.frames = [.destroy p .queues, .client] ∨ th'.frames = [.client]) ∧
      ∀ q, q ≠ p → s'.pools q = c.sh.pools q := by
  obtain ⟨D, hp⟩ := (hW.destroys t p .queues (hf ▸ List.mem_cons_self)).alive
  rw [thread_eq hf]
  rcases List.eq_nil_or_concat D.mInnerQueues with hnil | ⟨qs, iq, hqs⟩
  · refine ⟨_, _, .destroy (.queue hp hnil), ?_, .inr rfl, fun q hq => Function.update_of_ne hq ..⟩
    simp [Thread.rank, Frame.rank, DestroyStage.rank]
  · rw [List.concat_eq_append] at hqs
    refine ⟨_, _, .destroy (.innerQueue hp hqs), ?_, .inl rfl, fun q hq => setPool_pools_other hq⟩
    have hwidth : ∀ s' : Shared Tid P, s'.pools p = some { D with mInnerQueues := qs } →
        s'.width p < c.sh.width p := by
      intro s' hs'
      rw [width_eq hs', width_eq hp, hqs, List.length_append]
      exact Nat.lt_succ_self _
    simp only [Thread.rank, Frame.rank, DestroyStage.rank, Option.map_some, Option.toList_some,
      List.cons_append, List.nil_append, List.map_cons, List.map_nil, List.sum_cons, List.sum_nil]
    exact Nat.add_lt_add_right (Nat.add_lt_add_right (hwidth _ pools_setPool) 1) _

/-- A call that does not wait for a join can go on. -/
theorem WellUsed.call_step (hW : WellUsed home c) (hf : (c.pc t).frames = f :: rest)
    (hcall : f.isCall) (hjoin : ¬ f.joins) (hfree : Unhindered c t) :
    ∃ th' s', PoolStep home t (c.pc t) c.sh .step th' s' ∧
      th'.rank s'.width < (c.pc t).rank c.sh.width := by
  cases f with
  | task => exact exists_lower [] hf (.client .taskDone) rfl Nat.one_pos
  | assignTask p x stage =>
    obtain ⟨next, s', hstep, hwidth, hrank⟩ := hW.assign_step hf hfree
    apply exists_lower _ hf (.assignTask hstep) hwidth
    cases next <;> exact hrank
  | tryWork p stage =>
    by_cases hx : ∃ x, stage = .call x
    · obtain ⟨x, rfl⟩ := hx
      apply exists_lower [.task, .tryWork p (.calling x)] hf .call rfl
      exact Nat.lt_succ_self 2
    · obtain ⟨next, s', hstep, hwidth, hrank⟩ :=
        hW.work_step hf hfree fun x hx' => hx ⟨x, hx'⟩
      apply exists_lower _ hf (.tryWork hstep) hwidth
      cases next <;> exact hrank
  | destroy p stage =>
    have hD := hW.destroys t p stage (hf ▸ List.mem_cons_self)
    obtain ⟨D, hp⟩ := hD.alive
    cases stage with
    | stop =>
      exact exists_lower [.destroy p .joinThreads] hf (.destroy (.stop hp))
        (width_setPool hp rfl) (Nat.lt_succ_self _)
    | joinThreads => exact absurd trivial hjoin
    | queues =>
      obtain ⟨th', s', hstep, hrank, _⟩ := hW.queues_step hD.frames
      exact ⟨th', s', hstep, hrank⟩
  | _ => cases hcall

end Going

/-! ## Giving back the mutexes, and returning from the calls -/

section Phases

variable {Tid P : Type} [DecidableEq Tid] [DecidableEq P] {home : Tid → Option (P × ℕ)}
  {c : Config Tid (Thread P) (Shared Tid P)} {t u : Tid} {p : P} {f : Frame P}
  {rest : List (Frame P)} {th' : Thread P} {s' : Shared Tid P}

/-- The client makes no call. -/
def Silent (_ : Config Tid (Thread P) (Shared Tid P)) (e : Tid × Lab P) : Prop :=
  e.2 = .step

theorem WellUsed.silent_step (hW : WellUsed home c)
    (h : PoolStep home t (c.pc t) c.sh .step th' s') :
    WellUsed home ⟨Function.update c.pc t th', s'⟩ :=
  hW.step proper_step h

/-- The rank of the calls of a thread. -/
def rankOf (c : Config Tid (Thread P) (Shared Tid P)) (t : Tid) : ℕ :=
  (c.pc t).rank c.sh.width

omit [DecidableEq P] in
theorem rankOf_update (h : th'.rank s'.width < (c.pc t).rank c.sh.width) :
    rankOf ⟨Function.update c.pc t th', s'⟩ t < rankOf c t := by
  show (Function.update c.pc t th' t).rank s'.width < _
  rw [Function.update_self]
  exact h

omit [DecidableEq Tid] [DecidableEq P] in
/-- A thread that has locked an inner queue does not wait. -/
theorem of_locked (th : Thread P) {width : P → ℕ} (h : th.locked width ≠ none) :
    ∃ f rest, th.frames = f :: rest ∧ f.isCall ∧ ¬ f.joins := by
  cases hf : th.frames with
  | nil => simp [Thread.locked, hf] at h
  | cons f rest =>
    refine ⟨f, rest, rfl, ?_⟩
    cases f with
    | assignTask p x stage => exact ⟨trivial, id⟩
    | tryWork p stage => exact ⟨trivial, id⟩
    | _ => simp [Thread.locked, hf, Frame.locked] at h

/-- The threads give back the mutexes of the inner queues. -/
theorem WellUsed.unlock [Finite Tid] (hW : WellUsed home c) : ∃ tr c',
    Run (PoolStep home) Silent c tr c' ∧ WellUsed home c' ∧
      ∀ u, (c'.pc u).locked c'.sh.width = none := by
  apply exists_run_settled_of_rank (J := fun _ c => WellUsed home c) rankOf (fun _ _ => id)
    (fun _ _ hW _ => hW) _ hW (Set.toFinite _)
  intro c t hW hlocked
  obtain ⟨f, rest, hf, hcall, hjoin⟩ := of_locked _ hlocked
  obtain ⟨th', s', hstep, hrank⟩ := hW.call_step hf hcall hjoin fun hnone => absurd hnone hlocked
  refine ⟨.step, _, .mk hstep, rfl, hW.silent_step hstep, rankOf_update hrank, fun u hu => ?_⟩
  have hut : u ≠ t := by
    rintro rfl
    exact hlocked hu
  exact (hW.locked_other hstep hut).trans hu

/-- The thread is in no call, or waits for a join. -/
def Thread.Returned (th : Thread P) : Prop :=
  ∃ f rest, th.frames = f :: rest ∧ (f.isCall → f.joins)

omit [DecidableEq Tid] [DecidableEq P] in
theorem returned_of_base {th : Thread P} (hf : th.frames = f :: rest) (hbase : ¬ f.isCall) :
    th.Returned :=
  ⟨f, rest, hf, fun hcall => absurd hcall hbase⟩

omit [DecidableEq Tid] [DecidableEq P] in
theorem Thread.Returned.unlocked {th : Thread P} {width : P → ℕ} (h : th.Returned) :
    th.locked width = none := by
  obtain ⟨f, rest, hf, hjoin⟩ := h
  by_contra hlocked
  obtain ⟨g, rest', hg, hcall, hno⟩ := of_locked _ hlocked
  cases hf.symm.trans hg
  exact hno (hjoin hcall)

omit [DecidableEq Tid] [DecidableEq P] in
/-- A stack has a base. -/
theorem Stacked.ne_nil {h : Option (P × ℕ)} {frames : List (Frame P)} (hst : Stacked h frames) :
    ∃ f rest, frames = f :: rest := by
  apply List.exists_cons_of_ne_nil
  cases hst <;> simp

/-- Nobody but `t` has locked an inner queue. -/
structure Alone (home : Tid → Option (P × ℕ)) (t : Tid)
    (c : Config Tid (Thread P) (Shared Tid P)) : Prop where
  used : WellUsed home c
  others : ∀ u, u ≠ t → (c.pc u).locked c.sh.width = none

/-- A thread that is in a call goes on with it. -/
theorem Alone.step (h : Alone home t c) (hbusy : ¬ (c.pc t).Returned) :
    ∃ l c', Step (PoolStep home) c (t, l) c' ∧ Silent c (t, l) ∧ Alone home t c' ∧
      rankOf c' t < rankOf c t ∧ ∀ u, (c.pc u).Returned → (c'.pc u).Returned := by
  obtain ⟨f, rest, hf⟩ := (h.used.lifetimes.stacked t).ne_nil
  obtain ⟨hcall, hjoin⟩ : f.isCall ∧ ¬ f.joins := by
    by_contra hno
    exact hbusy ⟨f, rest, hf, fun hcall => by_contra fun hjoin => hno ⟨hcall, hjoin⟩⟩
  obtain ⟨th', s', hstep, hrank⟩ := h.used.call_step hf hcall hjoin (h.used.unhindered h.others)
  refine ⟨.step, _, .mk hstep, rfl, ⟨h.used.silent_step hstep, fun u hut => ?_⟩,
    rankOf_update hrank, fun u hu => ?_⟩
  · exact (h.used.locked_other hstep hut).trans (h.others u hut)
  · have hut : u ≠ t := by
      rintro rfl
      exact hbusy hu
    show (Function.update c.pc t th' u).Returned
    rw [Function.update_of_ne hut]
    exact hu

omit [DecidableEq Tid] [DecidableEq P] in
theorem Alone.unlocked (h : Alone home t c) (hret : (c.pc t).Returned) (u : Tid) :
    (c.pc u).locked c.sh.width = none := by
  by_cases hut : u = t
  · rw [hut]
    exact hret.unlocked
  · exact h.others u hut

end Phases

end UbuntuProjects.ThreadPool
