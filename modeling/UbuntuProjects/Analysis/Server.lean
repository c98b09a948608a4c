import UbuntuProjects.Model.Server

/-!
# Who accepts connections

Each branch of the forked process ends in `exit(1)` or in another program, except the one
behind an `execl` that returns (server.c:60-62): that child goes round the loop.
-/

set_option autoImplicit false

namespace UbuntuProjects.Server

open Concurrency

/-- No call of `execl` fails. -/
def execSucceeds : List Pc → ℕ × Call → Prop := fun _ e => e.2 ≠ .execl false

/-- How many calls a child has before it at most; `none` is for the control points of the
process that accepts. -/
def childRank : Pc → Option ℕ
  | .dupOut _ => some 4
  | .dupErr _ => some 3
  | .childClose _ => some 2
  | .exec => some 1
  | .failed _ => some 2
  | .exiting _ => some 1
  | .exited _ => some 0
  | .uptime => some 0
  | _ => none

/-- A child with the calls `ls` behind it: it has called no `accept`, and it has become
`uptime` through `execl` and exited through `exit`. -/
structure ChildAt (ls : List Call) (p : Pc) : Prop where
  rank : ∃ n, childRank p = some n ∧ ls.length + n ≤ 4
  noAccept : ∀ clfd, Call.accept clfd ∉ ls
  uptime : p = .uptime → Call.execl true ∈ ls
  exited : ∀ status, p = .exited status → Call.exit status ∈ ls

variable {ps ps' : List Pc} {ls : List Call} {p p' : Pc} {l : Call} {new : List Pc}

/-- INTERNAL: `fork` starts a child before its first `dup2`. -/
theorem childAt_of_forked {q : Pc} (hP : serve ps p l p' new) (hq : q ∈ new) :
    ChildAt [] q := by
  cases hP with
  | fork =>
    obtain rfl := List.mem_singleton.mp hq
    refine ⟨⟨4, rfl, by simp⟩, fun _ => List.not_mem_nil, ?_, ?_⟩
    · exact fun h => absurd h Pc.noConfusion
    · exact fun _ h => absurd h Pc.noConfusion
  | accept | acceptFails | forkFails | dupOut | dupOutFails | dupErr | dupErrFails |
    childClose | execl | execlFails | execReturned | parentClose | waitpid | waitpidFails |
    failed | exiting => exact absurd hq List.not_mem_nil

/-- INTERNAL: a step takes a child closer to its end. -/
theorem childAt_step (h : ChildAt ls p) (hexec : l ≠ .execl false)
    (hP : serve ps p l p' new) : ChildAt (ls ++ [l]) p' := by
  obtain ⟨⟨n, hn, hle⟩, hno, -, -⟩ := h
  have hlen : (ls ++ [l]).length = ls.length + 1 := by simp
  have hlast : l ∈ ls ++ [l] := List.mem_append_right _ (List.mem_singleton_self l)
  have hkeep : (∀ clfd, l ≠ .accept clfd) → ∀ clfd, Call.accept clfd ∉ ls ++ [l] := by
    intro hl clfd hmem
    rcases List.mem_append.mp hmem with hmem | hmem
    · exact hno clfd hmem
    · exact hl clfd (List.mem_singleton.mp hmem).symm
  cases hP with
  | accept | acceptFails | fork | forkFails | execReturned | parentClose | waitpid |
    waitpidFails => exact absurd hn (by simp [childRank])
  | execlFails => exact absurd rfl hexec
  | dupOut | dupOutFails | dupErr | dupErrFails | childClose | execl | failed | exiting =>
    obtain rfl := Option.some.inj hn
    refine ⟨⟨_, rfl, by omega⟩, hkeep (by simp), ?_, ?_⟩ <;> simp

/-- INTERNAL: in a run whose `execl` never fails all forked processes are children. -/
theorem childAt_run {tr : List (ℕ × Call)} (h : ForkRun serve execSucceeds start tr ps) {i : ℕ}
    (hi : 0 < i) (hp : ps[i]? = some p) : ChildAt (ownLabels i tr) p := by
  refine h.each (fun i ls p => 0 < i → ChildAt ls p) ?_ ?_ ?_ i p hp hi
  · intro i p hp hi
    have hnone : start[i]? = none := List.getElem?_eq_none hi
    rw [hnone] at hp
    exact absurd hp (by simp)
  · exact fun ps i l p p' new _ hP j q _ hq _ => childAt_of_forked hP hq
  · exact fun ps i ls p l p' new hI hG hP hi => childAt_step (hI hi) hG hP

/-- INTERNAL: a child that has not ended can go on. -/
theorem childAt_progress (h : ChildAt ls p) {i : ℕ} (hp : ps[i]? = some p) :
    Ended p ∨ ∃ l ps', execSucceeds ps (i, l) ∧ ForkStep serve ps (i, l) ps' := by
  obtain ⟨⟨n, hn, -⟩, -, -, -⟩ := h
  cases p with
  | accepting | forking | execReturned | parentClose | waiting =>
    exact absurd hn (by simp [childRank])
  | uptime => exact .inl (.inl rfl)
  | exited status => exact .inl (.inr ⟨status, rfl⟩)
  | dupOut clfd => exact .inr ⟨_, _, by simp [execSucceeds], .mk hp (.dupOut ps clfd)⟩
  | dupErr clfd => exact .inr ⟨_, _, by simp [execSucceeds], .mk hp (.dupErr ps clfd)⟩
  | childClose clfd => exact .inr ⟨_, _, by simp [execSucceeds], .mk hp (.childClose ps clfd)⟩
  | exec => exact .inr ⟨_, _, by simp [execSucceeds], .mk hp (.execl ps)⟩
  | failed message => exact .inr ⟨_, _, by simp [execSucceeds], .mk hp (.failed ps message)⟩
  | exiting status => exact .inr ⟨_, _, by simp [execSucceeds], .mk hp (.exiting ps status)⟩

/-- What is to hold of the processes behind a run: only the first one has called `accept`,
and every other one makes at most four calls; then it has become `uptime` or has exited, and
before that it can go on. -/
structure ParentAccepts (tr : List (ℕ × Call)) (ps : List Pc) : Prop where
  accepts : ∀ i clfd, (i, Call.accept clfd) ∈ tr → i = 0
  notAccepting : ∀ i, 0 < i → ps[i]? ≠ some .accepting
  calls : ∀ i, 0 < i → (ownLabels i tr).length ≤ 4
  ends : ∀ i p, 0 < i → ps[i]? = some p →
    (p = .uptime ∧ (i, Call.execl true) ∈ tr) ∨
    (∃ status, p = .exited status ∧ (i, Call.exit status) ∈ tr) ∨
    ∃ l ps', execSucceeds ps (i, l) ∧ ForkStep serve ps (i, l) ps'

/-- **The accept loop stays in the parent** in every run in which no `execl` fails.
SRCLINE: server.c:39-70 -/
theorem serve_parentAccepts (tr : List (ℕ × Call)) (ps : List Pc)
    (h : ForkRun serve execSucceeds start tr ps) : ParentAccepts tr ps := by
  -- a process that is not in the table has made no calls
  have hown : ∀ i, 0 < i → ownLabels i tr = [] ∨
      ∃ p, ps[i]? = some p ∧ ChildAt (ownLabels i tr) p := by
    intro i hi
    cases hp : ps[i]? with
    | none => exact .inl (h.ownLabels_of_le i (List.getElem?_eq_none_iff.mp hp))
    | some p => exact .inr ⟨p, rfl, childAt_run h hi hp⟩
  constructor
  · intro i clfd hmem
    by_contra hne
    rw [← mem_ownLabels] at hmem
    rcases hown i (Nat.pos_of_ne_zero hne) with hnil | ⟨p, -, hp⟩
    · rw [hnil] at hmem
      exact List.not_mem_nil hmem
    · exact hp.noAccept clfd hmem
  · intro i hi hp
    obtain ⟨n, hn, -⟩ := (childAt_run h hi hp).rank
    exact absurd hn (by simp [childRank])
  · intro i hi
    rcases hown i hi with hnil | ⟨p, -, hp⟩
    · rw [hnil]
      exact Nat.zero_le 4
    · obtain ⟨n, -, hle⟩ := hp.rank
      omega
  · intro i p hi hp
    have hchild := childAt_run h hi hp
    rcases childAt_progress hchild hp with (rfl | ⟨status, rfl⟩) | hstep
    · exact .inl ⟨rfl, mem_ownLabels.mp (hchild.uptime rfl)⟩
    · exact .inr (.inl ⟨status, rfl, mem_ownLabels.mp (hchild.exited status rfl)⟩)
    · exact .inr (.inr hstep)

/-- INTERNAL: the parent accepts and forks, and the child runs up to its `execl`. -/
theorem run_to_exec {G : List Pc → ℕ × Call → Prop} (hG : ∀ ps e, e.2 ≠ .execl false → G ps e) :
    ForkRun serve G start
      [(0, .accept (some 5)), (0, .fork (some 1)), (1, .dup2 1 true), (1, .dup2 2 true),
        (1, .close 5)] [.parentClose 5 1, .exec] := by
  have h₀ : ForkRun serve G start [] start := .nil
  have h₁ := h₀.snoc 0 rfl (hG _ _ (by simp)) (.accept _ 5)
  have h₂ := h₁.snoc 0 rfl (hG _ _ (by simp)) (.fork _ 5)
  have h₃ := h₂.snoc 1 rfl (hG _ _ (by simp)) (.dupOut _ 5)
  have h₄ := h₃.snoc 1 rfl (hG _ _ (by simp)) (.dupErr _ 5)
  exact h₄.snoc 1 rfl (hG _ _ (by simp)) (.childClose _ 5)

/-- One connection, its child running `uptime`. -/
theorem serve_parentAccepts_one :
    ParentAccepts
      [(0, .accept (some 5)), (0, .fork (some 1)), (1, .dup2 1 true), (1, .dup2 2 true),
        (1, .close 5), (1, .execl true)] [.parentClose 5 1, .uptime] := by
  have hrun := (run_to_exec (G := execSucceeds) fun _ _ h => h).snoc 1 rfl (by simp [execSucceeds])
    (.execl _)
  exact serve_parentAccepts _ _ hrun

/-- The `execl` of the first child fails and the child accepts the next connection. -/
theorem child_accepts :
    ¬∀ (tr : List (ℕ × Call)) (ps : List Pc), ForkRun serve anyCall start tr ps →
      ∀ i clfd, (i, Call.accept clfd) ∈ tr → i = 0 := by
  intro hall
  have h₁ := (run_to_exec (G := anyCall) fun _ _ _ => trivial).snoc 1 rfl trivial (.execlFails _)
  have h₂ := h₁.snoc 1 rfl trivial (.execReturned _)
  have h₃ := h₂.snoc 1 rfl trivial (.accept _ 6)
  exact absurd (hall _ _ h₃ 1 (some 6) (by simp)) (by decide)

end UbuntuProjects.Server
