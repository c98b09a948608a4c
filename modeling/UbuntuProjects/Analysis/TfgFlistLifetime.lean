import UbuntuProjects.Analysis.TfgFlistProgress

/-!
# `tfg_flist`: the lifetime of nodes

A node is pushed once, then lies in the chain until one thread unlinks it, and is
destroyed by that thread. The pointers a thread will dereference (`Pc.derefs`) lead to
nodes of the chain or to nodes of its own, so when a thread destroys a node it has
unlinked, nobody has a pointer to it that is still to be used, owns its mutex or waits for
it (`node_lifetime`).
-/

set_option autoImplicit false

namespace UbuntuProjects.TfgFlist

open Concurrency (Config Run Step anyStep)

variable {Tid L T : Type}

/-! ## Pointers -/

/-- The pointers a thread holds and dereferences in what remains of its call. -/
def Pc.derefs : Pc L T → List Addr
  | .idle | .returning _ | .makeNode _ => []
  | .pushLock _ a | .pushLink _ a => [beforeBegin, a]
  | .emptyLock | .emptyTest | .scanStart _ _ | .removeStart _ _ _ => [beforeBegin]
  | .scanTest _ prev | .removeTest _ _ prev => [prev]
  | .scanLock _ prev cur | .scanUnlockPrev _ prev cur => [prev, cur]
  | .scanVisit _ cur => [cur]
  | .removeLock _ _ prev cur | .removeVisit _ _ prev cur | .removeUnlockPrev _ _ prev cur
  | .unlink _ _ prev cur | .unlockCur _ _ prev cur | .unwind prev cur _ => [prev, cur]
  | .destroy _ _ prev _ => [prev]
  | .unlock a _ => [a]

section Steps

variable {g : Ghost Tid} {s s' : Shared Tid T} {t : Tid} {p p' : Pc L T} {l : Lab L T} {a : Addr}

/-- A step changes only nodes the thread has a pointer to, the node it constructs and the
node it destroys. -/
theorem flistStep_frame (h : FlistStep t p s l p' s') (ha : a ∉ p.derefs) (hnew : a ≠ s.made)
    (hold : ∀ k once prev, p ≠ .destroy k once prev a) : s'.heap a = s.heap a := by
  cases h with
  | client h => cases h <;> simp_all [Pc.derefs]
  | scan h => cases h <;> simp_all [Pc.derefs]
  | remove h =>
    cases h with
    | @destroy _ k once prev cur nd h =>
      have hac : a ≠ cur := fun he => hold k once prev (he ▸ rfl)
      simp [hac]
    | _ => simp_all [Pc.derefs]

/-- The pointers of a thread after a step are the ones it had, one it has read from a node
it has a pointer to, `m_before_begin`, and the node it constructed. -/
theorem flistStep_derefs (h : FlistStep t p s l p' s') (ha : a ∈ p'.derefs) :
    a ∈ p.derefs ∨ (∃ b ∈ p.derefs, nextOf s.heap b = some a) ∨ a = beforeBegin ∨ a = s.made := by
  cases h with
  | client h =>
    cases h with
    | call _ op => cases op <;> simp_all [Pc.derefs, Op.entry]
    | _ => simp_all [Pc.derefs]
  | scan h =>
    cases h with
    | @test _ k prev q h =>
      cases hn : q.mNext with
      | none => simp_all [afterScanTest, Pc.derefs]
      | some cur =>
        have hnext : nextOf s.heap prev = some cur := by simp [nextOf, h, hn]
        simp only [afterScanTest, hn, Pc.derefs, List.mem_cons, List.not_mem_nil, or_false] at ha
        rcases ha with rfl | rfl
        · exact .inl (List.mem_cons_self ..)
        · exact .inr (.inl ⟨prev, List.mem_cons_self .., hnext⟩)
    | visit h hv =>
      unfold afterScanVisit at ha
      split at ha <;> simp_all [Pc.derefs]
    | _ => simp_all [Pc.derefs]
  | remove h =>
    cases h with
    | @test _ k once prev q h =>
      cases hn : q.mNext with
      | none => simp_all [afterRemoveTest, Pc.derefs]
      | some cur =>
        have hnext : nextOf s.heap prev = some cur := by simp [nextOf, h, hn]
        simp only [afterRemoveTest, hn, Pc.derefs, List.mem_cons, List.not_mem_nil, or_false] at ha
        rcases ha with rfl | rfl
        · exact .inl (List.mem_cons_self ..)
        · exact .inr (.inl ⟨prev, List.mem_cons_self .., hnext⟩)
    | visit h hv =>
      unfold afterRemoveVisit at ha
      split at ha <;> simp_all [Pc.derefs]
    | destroy h =>
      unfold afterDestroy at ha
      split at ha <;> simp_all [Pc.derefs]
    | _ => simp_all [Pc.derefs]

/-- INTERNAL: the pointers of a thread lead into the chain or to nodes of its own. -/
theorem derefs_place (hp : assertion g t p s) (hI : SharedInv g s) (ha : a ∈ p.derefs) :
    a ∈ g.nodes ∨ g.priv a = some t := by
  have hplaces := hp.2
  have hfront : beforeBegin ∈ g.nodes := List.mem_cons_self ..
  cases p with
  | idle | returning | makeNode => cases ha
  | pushLock v b | pushLink v b =>
    rcases List.mem_cons.mp ha with rfl | ha
    · exact .inl hfront
    · obtain rfl := List.mem_singleton.mp ha
      exact .inr hplaces.1
  | emptyLock | emptyTest | scanStart | removeStart =>
    obtain rfl := List.mem_singleton.mp ha
    exact .inl hfront
  | scanTest k prev | removeTest k once prev | unlock prev r =>
    obtain rfl := List.mem_singleton.mp ha
    exact .inl hplaces
  | scanVisit k cur =>
    obtain rfl := List.mem_singleton.mp ha
    exact .inl hplaces.1
  | scanLock k prev cur | scanUnlockPrev k prev cur | removeLock k once prev cur
  | removeVisit k once prev cur | removeUnlockPrev k once prev cur | unlink k once prev cur
  | unwind prev cur r =>
    rcases List.mem_cons.mp ha with rfl | ha
    · exact .inl hplaces.1
    · obtain rfl := List.mem_singleton.mp ha
      exact .inl (hI.next hplaces.1 hplaces.2).1
  | unlockCur k once prev cur =>
    rcases List.mem_cons.mp ha with rfl | ha
    · exact .inl hplaces.1
    · obtain rfl := List.mem_singleton.mp ha
      exact .inr hplaces.2
  | destroy k once prev cur =>
    obtain rfl := List.mem_singleton.mp ha
    exact .inl hplaces.1

end Steps

/-! ## The life of a node in a run -/

/-- Node `a` was pushed. -/
def Pushed (tr : List (Tid × Lab L T)) (a : Addr) : Prop := ∃ t, (t, .push a) ∈ tr

/-- The thread that a step shows to unlink node `a`. -/
def unlinker (a : Addr) : Tid × Lab L T → Option Tid
  | (t, .unlink b) => if b = a then some t else none
  | _ => none

/-- The threads that have unlinked node `a`, one for each time it was unlinked. -/
def unlinkers (tr : List (Tid × Lab L T)) (a : Addr) : List Tid := tr.filterMap (unlinker a)

/-- The node a thread is going to push. -/
def Pc.making : Pc L T → Option Addr
  | .pushLock _ a | .pushLink _ a => some a
  | _ => none

/-- The node a thread has unlinked and not yet destroyed. -/
def Pc.removed : Pc L T → Option Addr
  | .unlockCur _ _ _ cur | .destroy _ _ _ cur => some cur
  | _ => none

section Histories

variable {tr : List (Tid × Lab L T)} {g : Ghost Tid} {s s' : Shared Tid T} {t : Tid}
  {p p' : Pc L T} {l : Lab L T} {a : Addr}

theorem pushed_snoc : Pushed (tr ++ [(t, l)]) a ↔ Pushed tr a ∨ l = .push a := by
  simp only [Pushed, List.mem_append, List.mem_singleton, Prod.mk.injEq]
  constructor
  · rintro ⟨u, h | ⟨-, h⟩⟩
    · exact .inl ⟨u, h⟩
    · exact .inr h.symm
  · rintro (⟨u, h⟩ | rfl)
    · exact ⟨u, .inl h⟩
    · exact ⟨t, .inr ⟨rfl, rfl⟩⟩

theorem unlinkers_snoc_of_ne (hl : l ≠ .unlink a) : unlinkers (tr ++ [(t, l)]) a = unlinkers tr a := by
  have hnone : unlinker a (t, l) = none := by
    cases l with
    | unlink b => exact if_neg fun hb : b = a => hl (hb ▸ rfl)
    | _ => rfl
  simp [unlinkers, hnone]

theorem unlinkers_snoc : unlinkers (tr ++ [(t, (.unlink a : Lab L T))]) a = unlinkers tr a ++ [t] := by
  simp [unlinkers, unlinker]

/-- What the steps so far say about each node. -/
structure NodeHistory (tr : List (Tid × Lab L T)) (g : Ghost Tid)
    (c : Config Tid (Pc L T) (Shared Tid T)) : Prop where
  chained : ∀ a ∈ g.chain, unlinkers tr a = []
  gone : ∀ a, Pushed tr a → a ∉ g.chain → ∃ t, unlinkers tr a = [t]
  removed : ∀ t a, (c.pc t).removed = some a → unlinkers tr a = [t]
  making : ∀ t a, (c.pc t).making = some a → ¬Pushed tr a ∧ unlinkers tr a = []
  fresh : ∀ a, c.sh.made ≤ a → ¬Pushed tr a ∧ unlinkers tr a = []

/-- INTERNAL: which nodes a thread makes and removes after a step. -/
theorem flistStep_life (h : FlistStep t p s l p' s') :
    s.made ≤ s'.made ∧
    (∀ a, p'.making = some a → p.making = some a ∨ a = s.made) ∧
    (∀ a, p'.removed = some a → p.removed = some a ∨ l = .unlink a) ∧
    (∀ a, l = .push a → p.making = some a ∧ p'.making = none) ∧
    (∀ a, l = .unlink a → p'.making = none ∧ ∃ k once prev, p = .unlink k once prev a) := by
  cases h with
  | client h =>
    cases h with
    | call _ op => cases op <;> simp [Pc.making, Pc.removed, Op.entry]
    | _ => simp_all [Pc.making, Pc.removed]
  | scan h =>
    cases h with
    | @test _ k prev q h => cases hn : q.mNext <;> simp [Pc.making, Pc.removed, afterScanTest]
    | visit h hv =>
      unfold afterScanVisit
      split <;> simp [Pc.making, Pc.removed]
    | _ => simp [Pc.making, Pc.removed]
  | remove h =>
    cases h with
    | @test _ k once prev q h => cases hn : q.mNext <;> simp [Pc.making, Pc.removed, afterRemoveTest]
    | visit h hv =>
      unfold afterRemoveVisit
      split <;> simp [Pc.making, Pc.removed]
    | destroy h =>
      unfold afterDestroy
      split <;> simp [Pc.making, Pc.removed]
    | _ => simp [Pc.making, Pc.removed]

/-- INTERNAL: a node that a thread makes or has removed belongs to it. -/
theorem priv_of_making (hp : assertion g t p s) (ha : p.making = some a ∨ p.removed = some a) :
    g.priv a = some t := by
  have hplaces := hp.2
  cases p with
  | pushLock v b | pushLink v b =>
    obtain rfl : b = a := by simpa [Pc.making, Pc.removed] using ha
    exact hplaces.1
  | unlockCur k once prev cur =>
    obtain rfl : cur = a := by simpa [Pc.making, Pc.removed] using ha
    exact hplaces.2
  | destroy k once prev cur =>
    obtain rfl : cur = a := by simpa [Pc.making, Pc.removed] using ha
    exact hplaces.2.1
  | _ => simp [Pc.making, Pc.removed] at ha

/-- INTERNAL: a step extends the history of every node. -/
theorem NodeHistory.step [DecidableEq Tid] {c : Config Tid (Pc L T) (Shared Tid T)} {g' : Ghost Tid}
    (hH : NodeHistory tr g c) (hI : SharedInv g c.sh) (hloc : ∀ u, assertion g u (c.pc u) c.sh)
    (hchain : g'.chain = l.chainAfter g.chain) (h : FlistStep t (c.pc t) c.sh l p' s') :
    NodeHistory (tr ++ [(t, l)]) g' ⟨Function.update c.pc t p', s'⟩ := by
  obtain ⟨hmade, hmaking, hremoved, hpush, hunlink⟩ := flistStep_life h
  have hnodup := (List.nodup_cons.mp hI.linked.nodup).2
  have hin : ∀ b, l = .unlink b → b ∈ g.chain := fun b hb => by
    obtain ⟨-, k, once, prev, hpc⟩ := hunlink b hb
    have hplaces := (hloc t).2
    rw [hpc] at hplaces
    exact (hI.next hplaces.1 hplaces.2).2.1
  have hout : ∀ u b, g.priv b = some u → l ≠ .unlink b := fun u b hb he =>
    (hI.apart b u hb).1 (List.mem_cons_of_mem _ (hin b he))
  have hmine : ∀ b, l = .push b → g.priv b = some t := fun b hb =>
    priv_of_making (hloc t) (.inl (hpush b hb).1)
  -- a node that is neither pushed nor unlinked by this step
  have hkeep : ∀ b, ¬Pushed tr b ∧ unlinkers tr b = [] → l ≠ .push b → l ≠ .unlink b →
      ¬Pushed (tr ++ [(t, l)]) b ∧ unlinkers (tr ++ [(t, l)]) b = [] := fun b hb h₁ h₂ =>
    ⟨fun hpb => (pushed_snoc.mp hpb).elim hb.1 h₁, (unlinkers_snoc_of_ne h₂).trans hb.2⟩
  refine ⟨fun b hb => ?_, fun b hpb hb => ?_, fun u b hb => ?_, fun u b hb => ?_, fun b hb => ?_⟩
  · rw [hchain] at hb
    cases l with
    | push a =>
      rw [unlinkers_snoc_of_ne (by simp)]
      rcases List.mem_cons.mp hb with rfl | hb
      · exact (hH.making t b (hpush b rfl).1).2
      · exact hH.chained b hb
    | unlink a =>
      obtain ⟨hba, hb⟩ := hnodup.mem_erase_iff.mp hb
      rw [unlinkers_snoc_of_ne (by simpa using Ne.symm hba)]
      exact hH.chained b hb
    | _ =>
      rw [unlinkers_snoc_of_ne (by simp)]
      exact hH.chained b hb
  · rw [hchain] at hb
    cases l with
    | push a =>
      rw [unlinkers_snoc_of_ne (by simp)]
      simp only [Lab.chainAfter, List.mem_cons, not_or] at hb
      refine hH.gone b ((pushed_snoc.mp hpb).resolve_right fun he => hb.1 ?_) hb.2
      simpa using he.symm
    | unlink a =>
      have hpb' := (pushed_snoc.mp hpb).resolve_right (by simp)
      by_cases hba : b = a
      · subst hba
        exact ⟨t, by rw [unlinkers_snoc, hH.chained b (hin b rfl)]; rfl⟩
      · rw [unlinkers_snoc_of_ne (by simpa using Ne.symm hba)]
        exact hH.gone b hpb' fun hmem => hb (hnodup.mem_erase_iff.mpr ⟨hba, hmem⟩)
    | _ =>
      rw [unlinkers_snoc_of_ne (by simp)]
      exact hH.gone b ((pushed_snoc.mp hpb).resolve_right (by simp)) hb
  · by_cases hu : u = t
    · subst hu
      simp only [Function.update_self] at hb
      rcases hremoved b hb with hb' | rfl
      · rw [unlinkers_snoc_of_ne (hout u b (priv_of_making (hloc u) (.inr hb')))]
        exact hH.removed u b hb'
      · rw [unlinkers_snoc, hH.chained b (hin b rfl)]
        rfl
    · simp only [Function.update_of_ne hu] at hb
      rw [unlinkers_snoc_of_ne (hout u b (priv_of_making (hloc u) (.inr hb)))]
      exact hH.removed u b hb
  · by_cases hu : u = t
    · subst hu
      simp only [Function.update_self] at hb
      have h₁ : l ≠ .push b := fun he => by simp [(hpush b he).2] at hb
      have h₂ : l ≠ .unlink b := fun he => by simp [(hunlink b he).1] at hb
      rcases hmaking b hb with hb' | rfl
      · exact hkeep b (hH.making u b hb') h₁ h₂
      · exact hkeep _ (hH.fresh _ (Nat.le_refl _)) h₁ h₂
    · simp only [Function.update_of_ne hu] at hb
      have hpriv := priv_of_making (hloc u) (.inl hb)
      exact hkeep b (hH.making u b hb)
        (fun he => hu (Option.some.inj (hpriv.symm.trans (hmine b he)))) (hout u b hpriv)
  · have hb' : c.sh.made ≤ b := Nat.le_trans hmade hb
    have hdead := hI.fresh b hb'
    refine hkeep b (hH.fresh b hb') (fun he => ?_) fun he => ?_
    · have := (hI.apart b t (hmine b he)).2
      simp [hdead] at this
    · obtain ⟨nd, hnd⟩ := hI.alive (List.mem_cons_of_mem _ (hin b he))
      cases hdead.symm.trans hnd

end Histories

section Runs

variable [DecidableEq Tid] {tr : List (Tid × Lab L T)} {c : Config Tid (Pc L T) (Shared Tid T)}

/-- INTERNAL: the history of all nodes in every run. -/
theorem nodeHistory_run (h : Run FlistStep anyStep (newList Tid L T) tr c) :
    ∃ g, SharedInv g c.sh ∧ (∀ t, assertion g t (c.pc t) c.sh) ∧ NodeHistory tr g c := by
  refine h.trace_invariant (fun tr c => ∃ g, SharedInv g c.sh ∧
    (∀ t, assertion g t (c.pc t) c.sh) ∧ NodeHistory tr g c) ?_ ?_
  · obtain ⟨g, hI, hloc⟩ : (outline Tid L T).Holds (newList Tid L T) := outline_newList
    refine ⟨g, hI, hloc, ⟨fun a _ => rfl, fun a ha => ?_, fun t a ha => ?_, fun t a ha => ?_,
      fun a _ => ⟨?_, rfl⟩⟩⟩
    · simp [Pushed] at ha
    · cases ha
    · cases ha
    · simp [Pushed]
  · rintro tr c ⟨t, l⟩ c' - ⟨g, hI, hloc, hH⟩ - ⟨hstep⟩
    obtain ⟨g', hI', hp', hchain, hrely⟩ := flistStep_guarantee hI (hloc t) hstep
    refine ⟨g', hI', fun u => ?_, hH.step hI hloc hchain hstep⟩
    by_cases hu : u = t
    · subst hu
      simpa using hp'
    · simpa [hu] using assertion_rely (hrely u hu) _ (hloc u)

/-- Every node pushed is in the chain once and was never unlinked, or is outside and was
unlinked by one thread, once. When a thread is about to destroy a node, it is the one that
has unlinked it, and nobody owns its mutex, waits for it or holds a pointer to it that is
still to be dereferenced. -/
theorem node_lifetime (h : Run FlistStep anyStep (newList Tid L T) tr c) :
    (∃ xs, Chain c.sh xs ∧ ∀ a, Pushed tr a →
      (xs.count a = 1 ∧ unlinkers tr a = []) ∨ (xs.count a = 0 ∧ ∃ t, unlinkers tr a = [t])) ∧
    ∀ t k once prev cur, c.pc t = .destroy k once prev cur → unlinkers tr cur = [t] ∧
      ∀ u, ¬Owns c.sh.heap u cur ∧ (c.pc u).waitsFor ≠ some cur ∧ cur ∉ (c.pc u).derefs := by
  obtain ⟨g, hI, hloc, hH⟩ := nodeHistory_run h
  have hnodup := (List.nodup_cons.mp hI.linked.nodup).2
  refine ⟨⟨g.chain, hI.linked, fun a ha => ?_⟩, fun t k once prev cur ht => ⟨?_, fun u => ?_⟩⟩
  · by_cases hmem : a ∈ g.chain
    · exact .inl ⟨List.count_eq_one_of_mem hnodup hmem, hH.chained a hmem⟩
    · exact .inr ⟨List.count_eq_zero.mpr hmem, hH.gone a ha hmem⟩
  · exact hH.removed t cur (by rw [ht]; rfl)
  · have hplaces := (hloc t).2
    rw [ht] at hplaces
    obtain ⟨hprev, hpriv, nd, hnd, hm⟩ := hplaces
    have hout := (hI.apart cur t hpriv).1
    refine ⟨?_, fun hw => hout (waitsFor_mem hI (hloc u) hw), fun hd => ?_⟩
    · rintro ⟨nd', hnd', hm'⟩
      obtain rfl := Option.some.inj (hnd.symm.trans hnd')
      cases hm.symm.trans hm'
    · rcases derefs_place (hloc u) hI hd with hin | hpriv'
      · exact hout hin
      · obtain rfl : u = t := Option.some.inj (hpriv'.symm.trans hpriv)
        rw [ht] at hd
        obtain rfl := List.mem_singleton.mp hd
        exact hout hprev

/-- A thread that clears a list of one element while another is about to visit it. -/
theorem node_lifetime_clear :
    ∃ (c : Config Bool (Pc Unit ℕ) (Shared Bool ℕ)) (tr : List (Bool × Lab Unit ℕ)),
      Run FlistStep anyStep (newList Bool Unit ℕ) tr c ∧
        (∃ k, c.pc false = .destroy k false beforeBegin 1) ∧ (c.pc true).waitsFor = some beforeBegin ∧
        unlinkers tr 1 = [false] ∧ ∀ u, ¬Owns c.sh.heap u 1 := by
  have h₁ := (Run.nil : Run FlistStep anyStep (newList Bool Unit ℕ) [] _).snoc
    true trivial (.client (.call _ (.pushFront 7)))
  have h₂ := h₁.snoc true trivial (.client (.makeNode _ 7))
  have h₃ := h₂.snoc true trivial (.client (.pushLock rfl rfl))
  have h₄ := h₃.snoc true trivial (.client (.pushLink rfl rfl))
  have h₅ := h₄.snoc true trivial (.client (.unlock rfl))
  have h₆ := h₅.snoc true trivial (.client (.ret _ _))
  have k₁ := h₆.snoc false trivial (.client (.call _ (.clear ())))
  have k₂ := k₁.snoc false trivial (.remove (.start rfl rfl))
  have k₃ := k₂.snoc false trivial (.remove (.test rfl))
  have k₄ := k₃.snoc false trivial (.remove (.lock rfl rfl))
  have k₅ := k₄.snoc false trivial (.remove (.visit rfl rfl))
  have h₇ := k₅.snoc true trivial (.client (.call _ (.forEach (fun l v => (l, v, some l)) ())))
  have k₆ := h₇.snoc false trivial (.remove (.unlink rfl rfl))
  have k₇ := k₆.snoc false trivial (.remove (.unlockCur rfl))
  have hlife := (node_lifetime k₇).2 false _ _ _ _ rfl
  exact ⟨_, _, k₇, ⟨_, rfl⟩, rfl, hlife.1, fun u => (hlife.2 u).1⟩

end Runs

end UbuntuProjects.TfgFlist
