import UbuntuProjects.Analysis.TfgFlistPending

/-!
# `tfg_flist`: every run is serial in the order of the acquisitions

A call takes effect when it acquires the mutex of `m_before_begin`: from then on the list
that the chain and the calls in progress settle to is the one after the call, and the
result the call will return is fixed. Every later step of the call does a part of its work
at its place in the chain and leaves both as they are (`Rewrites`).
-/

set_option autoImplicit false

namespace UbuntuProjects.TfgFlist

open Concurrency (Config Run Step anyStep Linked Item cells stages settle Status Seen SeqSpec
  AtomicMove Simulates Serialization observed returns resultsOf)

variable {Tid L T : Type}

/-- What is seen of a step: a call takes effect when it acquires the mutex of
`m_before_begin`. -/
def Lab.seen : Lab L T → Option (Seen (Op L T) (Res L T))
  | .call op => some (.call op)
  | .acquire op => some (.effect op)
  | .ret r => some (.ret r)
  | _ => none

/-! ## A call in progress -/

/-- A call in progress with what is in front of its place and behind it. -/
structure InProgress (g : Ghost Tid) (pc : Tid → Pc L T) (s : Shared Tid T) (t : Tid)
    (w : List T → List T × Res L T) (A B : Items Tid L T) : Prop where
  inv : SharedInv g s
  loc : ∀ u, assertion g u (pc u) s
  fits : Fits pc s.heap (A ++ .stage t w :: B)

/-- What a step of a call in progress does to the sequence: the rest of the sequence
becomes `Y`, settles to the same list, and leaves all results as they are. -/
structure Rewrites (pc : Tid → Pc L T) (t : Tid) (w : List T → List T × Res L T)
    (A B Y : Items Tid L T) (l : Lab L T) (pc' : Tid → Pc L T) (s' : Shared Tid T) : Prop where
  chain : cells A ++ cells Y = l.chainAfter (cells A ++ cells B)
  element : ∀ a v, .cell a v ∈ A ++ Y → elementOf s'.heap a = some v
  placed : Placed pc' ((cells A).getLastD beforeBegin) Y
  stages : stages Y = ownStage t (pc' t) ++ stages B
  value : (settle Y []).1 = (w (settle B []).1).1
  results : ∀ x ∈ (settle Y []).2, x = (t, (w (settle B []).1).2) ∨ x ∈ (settle B []).2
  status : ∀ st, (pc' t).status = some st → st = .done (w (settle B []).1).2

section InProgress

variable {g : Ghost Tid} {pc pc' : Tid → Pc L T} {s s' : Shared Tid T} {t : Tid}
  {w : List T → List T × Res L T} {A B Y : Items Tid L T} {q cur : Addr} {l : Lab L T}

/-- INTERNAL: the chain. -/
theorem InProgress.chain (h : InProgress g pc s t w A B) : cells A ++ cells B = g.chain := by
  have hl := h.fits.linked
  simp only [Concurrency.cells_append, Concurrency.cells_stage] at hl
  exact hl.unique h.inv.linked

/-- INTERNAL: the work of the call. -/
theorem InProgress.work (h : InProgress g pc s t w A B) : (pc t).work = some w :=
  h.fits.stage (t, w) (by simp)

/-- INTERNAL: the other calls. -/
theorem InProgress.others (h : InProgress g pc s t w A B) :
    ∀ x ∈ stages A ++ stages B, x.1 ≠ t := by
  have hperm : (stages (A ++ .stage t w :: B)).Perm ((t, w) :: (stages A ++ stages B)) := by simp
  have hnodup := (hperm.map Prod.fst).nodup_iff.mp h.fits.once
  intro x hx he
  exact (List.nodup_cons.mp hnodup).1 (List.mem_map.mpr ⟨x, hx, he⟩)

/-- INTERNAL: no other call has its place behind a node whose mutex the call owns. -/
theorem InProgress.not_after (h : InProgress g pc s t w A B) (hq : q ∈ (pc t).owned) :
    ∀ x ∈ stages B, (pc x.1).after ≠ some q := by
  intro x hx hafter
  have hmine : Owns s.heap t q := ((h.loc t).1 q).mpr hq
  have hother : Owns s.heap x.1 q := ((h.loc x.1).1 q).mpr (after_mem_owned hafter)
  exact h.others x (List.mem_append_right _ hx) (hother.unique hmine)

/-- INTERNAL: the place of the call is the node before the rest of the sequence. -/
theorem InProgress.position (h : InProgress g pc s t w A B) (hq : (pc t).after = some q) :
    (cells A).getLastD beforeBegin = q ∧ Placed pc q B ∧ Linked (nextOf s.heap) q (cells B) := by
  have hplaced := h.fits.placed.drop
  have hlinked := h.fits.linked
  simp only [Concurrency.cells_append, Concurrency.cells_stage] at hlinked
  have hpos := hplaced.1.eq hq
  have hdrop := hlinked.drop
  rw [hpos] at hdrop
  exact ⟨hpos, hpos ▸ hplaced.2, hdrop⟩

/-- INTERNAL: a call that owns the mutex of the node behind its place has nobody between
itself and that node. -/
theorem InProgress.next_cell (h : InProgress g pc s t w A B) (hq : (pc t).after = some q)
    (hn : nextOf s.heap q = some cur) (hcur : cur ∈ (pc t).owned) :
    ∃ v B', B = .cell cur v :: B' := by
  obtain ⟨-, hplaced, hlinked⟩ := h.position hq
  cases B with
  | nil => cases hn.symm.trans hlinked
  | cons x B =>
    cases x with
    | cell b v =>
      obtain rfl : b = cur := Option.some.inj (hlinked.1.symm.trans hn)
      exact ⟨v, B, rfl⟩
    | stage u w' =>
      -- the next call would own the mutex of `q` or of `cur`
      exfalso
      rcases hplaced.1 with hafter | ⟨k, cur', v, r, hu, rfl⟩
      · exact h.not_after (after_mem_owned hq) (u, w') (List.mem_cons_self ..) hafter
      · obtain rfl : cur' = cur := Option.some.inj (hlinked.1.symm.trans hn)
        have hmine : Owns s.heap t cur' := ((h.loc t).1 cur').mpr hcur
        have hother : Owns s.heap u cur' :=
          ((h.loc u).1 cur').mpr (by rw [hu]; exact List.mem_singleton_self _)
        exact h.others (u, w') (by simp) (hother.unique hmine)

/-- INTERNAL: a call at the end of the chain has nobody behind it. -/
theorem InProgress.no_next (h : InProgress g pc s t w A B) (hq : (pc t).after = some q)
    (hn : nextOf s.heap q = none) : B = [] := by
  obtain ⟨-, hplaced, hlinked⟩ := h.position hq
  cases B with
  | nil => rfl
  | cons x B =>
    cases x with
    | cell b v => cases hn.symm.trans hlinked.1
    | stage u w' =>
      exfalso
      rcases hplaced.1 with hafter | ⟨k, cur', v, r, hu, rfl⟩
      · exact h.not_after (after_mem_owned hq) (u, w') (List.mem_cons_self ..) hafter
      · cases hn.symm.trans hlinked.1

/-- INTERNAL: a step leaves the elements of the chain as they are, but for the one that is
passed to a callback. -/
theorem flistStep_element {p p' : Pc L T} (hI : SharedInv g s) (hp : assertion g t p s)
    (h : FlistStep t p s l p' s') {a : Addr} (ha : a ∈ g.chain)
    (hscan : ∀ k, p ≠ .scanVisit k a) (hrem : ∀ k once prev, p ≠ .removeVisit k once prev a) :
    elementOf s'.heap a = elementOf s.heap a := by
  have hwrite : ∀ {b : Addr} {nd nd' : Node Tid T}, s.heap b = some nd →
      nd'.mPdata = nd.mPdata → elementOf (s.setNode b nd').heap a = elementOf s.heap a := by
    intro b nd nd' hnd hd
    by_cases hab : a = b
    · subst hab
      simp [elementOf, hnd, hd]
    · simp [elementOf, hab]
  have halive := hI.alive (List.mem_cons_of_mem _ ha)
  cases h with
  | client h =>
    cases h with
    | call | ret => rfl
    | emptyTest => rfl
    | makeNode _ v =>
      have ham : a ≠ s.made := by
        rintro rfl
        obtain ⟨nd, hnd⟩ := halive
        cases hnd.symm.trans (hI.fresh _ (Nat.le_refl _))
      simp [elementOf, ham]
    | pushLock h _ => exact hwrite h rfl
    | emptyLock h _ => exact hwrite h rfl
    | unlock h => exact hwrite h rfl
    | @pushLink _ v b f nd h hnd =>
      have hba : b ≠ beforeBegin := fun he =>
        (hI.apart b t hp.2.1).1 (he ▸ List.mem_cons_self ..)
      have hab : a ≠ b := fun he =>
        (hI.apart b t hp.2.1).1 (he ▸ List.mem_cons_of_mem _ ha)
      have hab' : a ≠ beforeBegin := fun he =>
        (List.nodup_cons.mp hI.linked.nodup).1 (he ▸ ha)
      simp [elementOf, hab, hab']
  | scan h =>
    cases h with
    | start h _ => exact hwrite h rfl
    | test => rfl
    | lock h _ => exact hwrite h rfl
    | unlockPrev h => exact hwrite h rfl
    | @visit _ k c nd v h hv =>
      have hac : a ≠ c := fun he => hscan k (he ▸ rfl)
      simp [elementOf, hac]
  | remove h =>
    cases h with
    | start h _ => exact hwrite h rfl
    | test => rfl
    | lock h _ => exact hwrite h rfl
    | unlockPrev h => exact hwrite h rfl
    | unlockCur h => exact hwrite h rfl
    | unwind h => exact hwrite h rfl
    | @visit _ k once prev c nd v h hv =>
      have hac : a ≠ c := fun he => hrem k once prev (he ▸ rfl)
      simp [elementOf, hac]
    | @unlink _ k once prev c q nd hq hnd =>
      by_cases hap : a = prev
      · subst hap
        simp [elementOf, hq]
      · by_cases hac : a = c
        · subst hac
          simp [elementOf, hap, hnd]
        · simp [elementOf, hap, hac]
    | @destroy _ k once prev c nd h =>
      have hac : a ≠ c := fun he =>
        (hI.apart c t hp.2.2.1).1 (he ▸ List.mem_cons_of_mem _ ha)
      simp [elementOf, hac]

/-- INTERNAL: the elements in the sequence after a step that calls nobody back. -/
theorem InProgress.element (h : InProgress g pc s t w A B) {p' : Pc L T}
    (hs : FlistStep t (pc t) s l p' s') {a : Addr} {v : T} (ha : .cell a v ∈ A ++ B)
    (hscan : ∀ k, pc t ≠ .scanVisit k a) (hrem : ∀ k once prev, pc t ≠ .removeVisit k once prev a) :
    elementOf s'.heap a = some v := by
  have hmem : a ∈ g.chain := by
    rw [← h.chain, ← Concurrency.cells_append]
    exact Concurrency.mem_cells ha
  rw [flistStep_element h.inv (h.loc t) hs hmem hscan hrem]
  refine h.fits.element a v ?_
  simp only [List.mem_append, List.mem_cons] at ha ⊢
  tauto

/-- INTERNAL: the places of the others, seen from the place of the call. -/
theorem InProgress.placed_others (h : InProgress g pc s t w A B) (hpc : ∀ u, u ≠ t → pc' u = pc u) :
    Placed pc' ((cells A).getLastD beforeBegin) B :=
  h.fits.placed.drop.2.congr fun x hx => hpc x.1 (h.others x (List.mem_append_right _ hx))

/-- INTERNAL: a step that leaves the call where it is, with the same work. -/
theorem InProgress.stay (h : InProgress g pc s t w A B) {p' : Pc L T}
    (hs : FlistStep t (pc t) s l p' s') (hpc : ∀ u, u ≠ t → pc' u = pc u) (ht : pc' t = p')
    (hl : l.chainAfter (cells A ++ cells B) = cells A ++ cells B) (hw : p'.work = some w)
    (hat : At p' ((cells A).getLastD beforeBegin) B)
    (hscan : ∀ a k, pc t ≠ .scanVisit k a)
    (hrem : ∀ a k once prev, pc t ≠ .removeVisit k once prev a) :
    Rewrites pc t w A B (.stage t w :: B) l pc' s' where
  chain := hl.symm
  element a v ha := by
    refine h.element hs ?_ (hscan a) (hrem a)
    simpa using ha
  placed := ⟨ht ▸ hat, h.placed_others hpc⟩
  stages := by simp [ownStage, ht, hw]
  value := rfl
  results x hx := List.mem_cons.mp hx
  status st hst := by
    rw [ht, status_of_work hw] at hst
    cases hst

/-- INTERNAL: a step after which the call has its place behind the same node. -/
theorem InProgress.remain (h : InProgress g pc s t w A B) {p' : Pc L T}
    (hs : FlistStep t (pc t) s l p' s') (hpc : ∀ u, u ≠ t → pc' u = pc u) (ht : pc' t = p')
    (hl : l.chainAfter (cells A ++ cells B) = cells A ++ cells B) (hw : p'.work = some w)
    (hq : (pc t).after = some q) (hq' : p'.after = some q)
    (hscan : ∀ a k, pc t ≠ .scanVisit k a)
    (hrem : ∀ a k once prev, pc t ≠ .removeVisit k once prev a) :
    ∃ Y, Rewrites pc t w A B Y l pc' s' := by
  have hat : At p' ((cells A).getLastD beforeBegin) B := by
    rw [(h.position hq).1]
    exact .inl hq'
  exact ⟨_, h.stay hs hpc ht hl hw hat hscan hrem⟩

/-- INTERNAL: the call is done, and the others are where they were. -/
theorem rewrites_done {p' : Pc L T} (ht : pc' t = p') (hw : p'.work = none)
    (hst : p'.status = some (.done (w (settle B []).1).2))
    (hchain : cells A ++ cells Y = l.chainAfter (cells A ++ cells B))
    (helem : ∀ a v, .cell a v ∈ A ++ Y → elementOf s'.heap a = some v)
    (hplaced : Placed pc' ((cells A).getLastD beforeBegin) Y) (hstages : stages Y = stages B)
    (hval : (settle Y []).1 = (w (settle B []).1).1)
    (hresults : (settle Y []).2 = (settle B []).2) : Rewrites pc t w A B Y l pc' s' where
  chain := hchain
  element := helem
  placed := hplaced
  stages := by simp [ownStage, ht, hw, hstages]
  value := hval
  results x hx := .inr (hresults ▸ hx)
  status st hst' := by
    rw [ht, hst] at hst'
    exact (Option.some.inj hst').symm

/-- INTERNAL: a step after which nothing remains to be done. -/
theorem InProgress.leave (h : InProgress g pc s t w A B) {p' : Pc L T}
    (hs : FlistStep t (pc t) s l p' s') (hpc : ∀ u, u ≠ t → pc' u = pc u) (ht : pc' t = p')
    (hl : l.chainAfter (cells A ++ cells B) = cells A ++ cells B) (hw : p'.work = none)
    (hst : p'.status = some (.done (w (settle B []).1).2))
    (hval : (w (settle B []).1).1 = (settle B []).1)
    (hscan : ∀ a k, pc t ≠ .scanVisit k a)
    (hrem : ∀ a k once prev, pc t ≠ .removeVisit k once prev a) :
    Rewrites pc t w A B B l pc' s' := by
  apply rewrites_done ht hw hst hl.symm _ (h.placed_others hpc) rfl hval.symm rfl
  intro a v ha
  exact h.element hs ha (hscan a) (hrem a)

/-! ## The steps of a call in progress -/

/-- INTERNAL: the next node is not among the others. -/
theorem InProgress.cur_notMem {v : T} (h : InProgress g pc s t w A (.cell cur v :: B)) :
    cur ∉ cells A ∧ cur ∉ cells B := by
  have hnodup := (List.nodup_cons.mp h.inv.linked.nodup).2
  rw [← h.chain] at hnodup
  have hperm : (cells A ++ cells (.cell cur v :: B)).Perm (cur :: (cells A ++ cells B)) := by simp
  have hcur := (List.nodup_cons.mp (hperm.nodup_iff.mp hnodup)).1
  simpa using hcur

/-- INTERNAL: the elements in the sequence after the next one was passed to the callback. -/
theorem InProgress.element_visit {v y : T} (h : InProgress g pc s t w A (.cell cur v :: B))
    {p' : Pc L T} (hs : FlistStep t (pc t) s l p' s') (hcur : elementOf s'.heap cur = some y)
    (hscan : ∀ a k, pc t = .scanVisit k a → a = cur)
    (hrem : ∀ a k once prev, pc t = .removeVisit k once prev a → a = cur) {a : Addr} {x : T}
    (ha : .cell a x ∈ A ++ .cell cur y :: B) : elementOf s'.heap a = some x := by
  by_cases hac : a = cur
  · subst hac
    obtain ⟨hA, hB⟩ := h.cur_notMem
    rcases List.mem_append.mp ha with ha | ha
    · exact absurd (Concurrency.mem_cells ha) hA
    · rcases List.mem_cons.mp ha with ha | ha
      · obtain ⟨-, rfl⟩ : a = a ∧ x = y := by simpa using ha
        exact hcur
      · exact absurd (Concurrency.mem_cells ha) hB
  · refine h.element hs ?_ (fun k hk => hac (hscan a k hk))
      fun k once prev hk => hac (hrem a k once prev hk)
    simp only [List.mem_append, List.mem_cons, Item.cell.injEq, hac, false_and, false_or] at ha ⊢
    exact ha

/-- INTERNAL: a callback after which the call has nothing left to do. -/
theorem InProgress.visit_leave {v v' : T} (h : InProgress g pc s t w A (.cell cur v :: B))
    {p' : Pc L T} (hpc : ∀ u, u ≠ t → pc' u = pc u) (ht : pc' t = p')
    (hl : l.chainAfter (cells A ++ cur :: cells B) = cells A ++ cur :: cells B)
    (helem : ∀ a x, .cell a x ∈ A ++ .cell cur v' :: B → elementOf s'.heap a = some x)
    (hw : p'.work = none)
    (hst : p'.status = some (.done (w (v :: (settle B []).1)).2))
    (hval : (w (v :: (settle B []).1)).1 = v' :: (settle B []).1) :
    Rewrites pc t w A (.cell cur v :: B) (.cell cur v' :: B) l pc' s' :=
  rewrites_done ht hw hst hl.symm helem (h.placed_others hpc) rfl hval.symm rfl

/-- INTERNAL: a callback after which the call goes on behind the node. -/
theorem InProgress.visit_advance {v v' : T} (h : InProgress g pc s t w A (.cell cur v :: B))
    {p' : Pc L T} (hpc : ∀ u, u ≠ t → pc' u = pc u) (ht : pc' t = p')
    (hl : l.chainAfter (cells A ++ cur :: cells B) = cells A ++ cur :: cells B)
    (helem : ∀ a x, .cell a x ∈ A ++ .cell cur v' :: B → elementOf s'.heap a = some x)
    {w' : List T → List T × Res L T} (hw : p'.work = some w') (hafter : p'.after = some cur)
    (hval : w (v :: (settle B []).1) =
      (v' :: (w' (settle B []).1).1, (w' (settle B []).1).2)) :
    Rewrites pc t w A (.cell cur v :: B) (.cell cur v' :: .stage t w' :: B) l pc' s' where
  chain := hl.symm
  element a x ha := by
    refine helem a x ?_
    simp only [List.mem_append, List.mem_cons, reduceCtorEq, false_or] at ha ⊢
    exact ha
  placed := ⟨ht ▸ .inl hafter, h.placed_others hpc⟩
  stages := by simp [ownStage, ht, hw]
  value := by simp [settle, hval]
  results x hx := by simpa [settle, hval] using hx
  status st hst := by
    rw [ht, status_of_work hw] at hst
    cases hst

/-- INTERNAL: a callback of `for_each` or `for_first_of`. -/
theorem InProgress.scanVisit {k : Loop L T} (h : InProgress g pc s t w A B)
    (hp : pc t = .scanVisit k cur) {nd : Node Tid T} {v : T} (hnd : s.heap cur = some nd)
    (hv : nd.mPdata = some v) (hpc : ∀ u, u ≠ t → pc' u = pc u)
    (ht : pc' t = afterScanVisit k cur v) :
    ∃ Y, Rewrites pc t w A B Y (.tau : Lab L T) pc'
      (s.setNode cur { nd with mPdata := some (k.written v) }) := by
  have hs : FlistStep t (pc t) s .tau (afterScanVisit k cur v)
      (s.setNode cur { nd with mPdata := some (k.written v) }) := hp ▸ .scan (.visit hnd hv)
  obtain ⟨v₀, B', rfl⟩ : ∃ v₀ B', B = .cell cur v₀ :: B' := by
    rcases h.fits.placed.drop.1 with hafter | ⟨k', cur', v₀, B', hp', hB⟩
    · rw [hp] at hafter
      cases hafter
    · obtain ⟨-, rfl⟩ : k = k' ∧ cur = cur' := by simpa using hp.symm.trans hp'
      exact ⟨v₀, B', hB⟩
  obtain rfl : v = v₀ := by
    have helem := h.fits.element cur v₀ (by simp)
    simpa [elementOf, hnd, hv] using helem
  obtain rfl : k.scan = w := by
    have hwork := h.work
    rw [hp] at hwork
    exact Option.some.inj hwork
  have helem := fun a x => h.element_visit (y := k.written v) hs (by simp [elementOf])
    (fun a k' he => (by simpa using hp.symm.trans he : k = k' ∧ cur = a).2.symm)
    (fun a k' once prev he => absurd (hp.symm.trans he) (by simp)) (a := a) (x := x)
  unfold afterScanVisit at ht
  cases hret : k.returned v with
  | none =>
    rw [hret] at ht
    exact ⟨_, h.visit_leave hpc ht rfl helem rfl (by simp [Pc.status, Loop.scan, hret])
      (by simp [Loop.scan, hret])⟩
  | some b =>
    rw [hret] at ht
    cases b with
    | true =>
      exact ⟨_, h.visit_leave hpc ht rfl helem rfl (by simp [Pc.status, Loop.scan, hret])
        (by simp [Loop.scan, hret])⟩
    | false => exact ⟨_, h.visit_advance hpc ht rfl helem rfl rfl (by simp [Loop.scan, hret])⟩

/-- INTERNAL: a callback of `remove_if` or `remove_first_if`. -/
theorem InProgress.removeVisit {k : Loop L T} {once : Bool} {prev : Addr}
    (h : InProgress g pc s t w A B) (hp : pc t = .removeVisit k once prev cur) {nd : Node Tid T}
    {v : T} (hnd : s.heap cur = some nd) (hv : nd.mPdata = some v)
    (hpc : ∀ u, u ≠ t → pc' u = pc u) (ht : pc' t = afterRemoveVisit k once prev cur v) :
    ∃ Y, Rewrites pc t w A B Y (.tau : Lab L T) pc'
      (s.setNode cur { nd with mPdata := some (k.written v) }) := by
  have hs : FlistStep t (pc t) s .tau (afterRemoveVisit k once prev cur v)
      (s.setNode cur { nd with mPdata := some (k.written v) }) := hp ▸ .remove (.visit hnd hv)
  have hplaces := (h.loc t).2
  rw [hp] at hplaces
  have hafter : (pc t).after = some prev := by rw [hp]; rfl
  obtain ⟨v₀, B', rfl⟩ := h.next_cell hafter hplaces.2 (by simp [hp, Pc.owned])
  obtain rfl : v = v₀ := by
    have helem := h.fits.element cur v₀ (by simp)
    simpa [elementOf, hnd, hv] using helem
  obtain rfl : k.remove once = w := by
    have hwork := h.work
    rw [hp] at hwork
    exact Option.some.inj hwork
  have helem := fun a x => h.element_visit (y := k.written v) hs (by simp [elementOf])
    (fun a k' he => absurd (hp.symm.trans he) (by simp))
    (fun a k' once' prev' he => by
      have he := hp.symm.trans he
      simp only [Pc.removeVisit.injEq] at he
      exact he.2.2.2.symm) (a := a) (x := x)
  unfold afterRemoveVisit at ht
  cases hret : k.returned v with
  | none =>
    rw [hret] at ht
    exact ⟨_, h.visit_leave hpc ht rfl helem rfl (by simp [Pc.status, Loop.remove, hret])
      (by simp [Loop.remove, hret])⟩
  | some b =>
    rw [hret] at ht
    cases b with
    | true =>
      -- the node stays in the sequence until it is unlinked
      have hpos := (h.position hafter).1
      have hval : k.remove once (v :: (settle B' []).1) =
          (k.next v).afterErase once (settle B' []).1 := by
        cases once <;> simp [Loop.remove, Loop.afterErase, hret]
      refine ⟨.stage t (fun vs => (k.next v).afterErase once vs.tail) :: .cell cur (k.written v) :: B',
        rfl, fun a x ha => helem a x ?_, ⟨ht ▸ .inl (by rw [hpos]; rfl), h.placed_others hpc⟩, ?_,
        ?_, fun x hx => ?_, fun st hst => ?_⟩
      · simp only [List.mem_append, List.mem_cons, reduceCtorEq, false_or] at ha ⊢
        exact ha
      · simp [ownStage, ht, Pc.work]
      · simp [settle, hval]
      · simpa [settle, hval] using hx
      · rw [ht] at hst
        cases hst
    | false => exact ⟨_, h.visit_advance hpc ht rfl helem rfl rfl (by simp [Loop.remove, hret])⟩

/-- INTERNAL: taking the node out of the chain. -/
theorem InProgress.unlinkCur {k : Loop L T} {once : Bool} {prev : Addr}
    (h : InProgress g pc s t w A B) (hp : pc t = .unlink k once prev cur) {q nd : Node Tid T}
    (hq : s.heap prev = some q) (hnd : s.heap cur = some nd)
    (hpc : ∀ u, u ≠ t → pc' u = pc u) (ht : pc' t = .unlockCur k once prev cur) :
    ∃ Y, Rewrites pc t w A B Y (.unlink cur : Lab L T) pc'
      ((s.setNode cur { nd with mNext := none }).setNode prev { q with mNext := nd.mNext }) := by
  have hs : FlistStep t (pc t) s (.unlink cur) (.unlockCur k once prev cur)
      ((s.setNode cur { nd with mNext := none }).setNode prev { q with mNext := nd.mNext }) :=
    hp ▸ .remove (.unlink hq hnd)
  have hplaces := (h.loc t).2
  rw [hp] at hplaces
  have hafter : (pc t).after = some prev := by rw [hp]; rfl
  obtain ⟨v, B', rfl⟩ := h.next_cell hafter hplaces.2 (by simp [hp, Pc.owned])
  obtain rfl : (fun vs => k.afterErase once vs.tail) = w := by
    have hwork := h.work
    rw [hp] at hwork
    exact Option.some.inj hwork
  have hpos := (h.position hafter).1
  have hnot := h.not_after (q := cur) (by simp [hp, Pc.owned])
  have hplaced : Placed pc prev B' :=
    Placed.shift ((h.position hafter).2.1 : Placed pc cur B') hnot
  refine ⟨.stage t (k.afterErase once) :: B', ?_, fun a x ha => h.element hs ?_ (by simp [hp])
    (by simp [hp]), ⟨ht ▸ .inl (by rw [hpos]; rfl), ?_⟩, by simp [ownStage, ht, Pc.work], rfl,
    fun x hx => List.mem_cons.mp hx, fun st hst => ?_⟩
  · have hcur := h.cur_notMem.1
    simp [Lab.chainAfter, List.erase_append_right _ hcur]
  · simp only [List.mem_append, List.mem_cons, reduceCtorEq, false_or] at ha ⊢
    tauto
  · rw [hpos]
    exact hplaced.congr fun x hx => hpc x.1 (h.others x (by simp; tauto))
  · rw [ht] at hst
    cases hst

/-- INTERNAL: linking the new node. -/
theorem InProgress.pushLink {v : T} {a : Addr} (h : InProgress g pc s t w A B)
    (hp : pc t = .pushLink v a) {b nd : Node Tid T} (hb : s.heap beforeBegin = some b)
    (hnd : s.heap a = some nd) (hpc : ∀ u, u ≠ t → pc' u = pc u)
    (ht : pc' t = .unlock beforeBegin (.of .void)) :
    ∃ Y, Rewrites pc t w A B Y (.push a : Lab L T) pc'
      ((s.setNode a { nd with mNext := b.mNext }).setNode beforeBegin
        { b with mNext := some a }) := by
  have hs : FlistStep t (pc t) s (.push a) (.unlock beforeBegin (.of .void))
      ((s.setNode a { nd with mNext := b.mNext }).setNode beforeBegin
        { b with mNext := some a }) := hp ▸ .client (.pushLink hb hnd)
  have hplaces := (h.loc t).2
  rw [hp] at hplaces
  obtain rfl : nd = _ := Option.some.inj (hnd.symm.trans hplaces.2)
  have hab : a ≠ beforeBegin := fun he =>
    (h.inv.apart a t hplaces.1).1 (he ▸ List.mem_cons_self ..)
  obtain rfl : (Op.pushFront v).seq = w := by
    have hwork := h.work
    rw [hp] at hwork
    exact Option.some.inj hwork
  obtain ⟨hpos, hplaced, -⟩ := h.position (q := beforeBegin) (by rw [hp]; rfl)
  -- the call stands at the very front of the chain
  have hA : cells A = [] := by
    cases hA : cells A with
    | nil => rfl
    | cons x xs =>
      have hmem : beforeBegin ∈ cells A := by
        rw [hA, List.getLastD_cons] at hpos
        rw [hA, ← hpos]
        exact List.getLastD_mem_cons
      refine absurd ?_ (List.nodup_cons.mp h.inv.linked.nodup).1
      rw [← h.chain]
      exact List.mem_append_left _ hmem
  have hnot := h.not_after (q := beforeBegin) (by simp [hp, Pc.owned])
  refine ⟨.cell a v :: B, by simp [hA, Lab.chainAfter], fun c x hc => ?_, ?_,
    by simp [ownStage, ht, Pc.work], rfl, fun x hx => .inr hx, fun st hst => ?_⟩
  · simp only [List.mem_append, List.mem_cons] at hc
    by_cases hca : c = a
    · subst hca
      have hchain : c ∉ cells A ++ cells B := by
        rw [h.chain]
        exact fun hmem => (h.inv.apart c t hplaces.1).1 (List.mem_cons_of_mem _ hmem)
      rcases hc with hc | hc | hc
      · exact absurd (List.mem_append_left _ (Concurrency.mem_cells hc)) hchain
      · obtain ⟨-, rfl⟩ : c = c ∧ x = v := by simpa using hc
        simp [elementOf, hab]
      · exact absurd (List.mem_append_right _ (Concurrency.mem_cells hc)) hchain
    · refine h.element hs ?_ (by simp [hp]) (by simp [hp])
      simp only [Item.cell.injEq, hca, false_and, false_or] at hc
      exact List.mem_append.mpr hc
  · exact (hplaced.shift hnot).congr fun x hx => hpc x.1 (h.others x (List.mem_append_right _ hx))
  · rw [ht] at hst
    exact (Option.some.inj hst).symm

/-- INTERNAL: a scan leaves a nonempty list nonempty. -/
theorem scan_ne_nil (k : Loop L T) (v : T) (vs : List T) : (k.scan (v :: vs)).1 ≠ [] := by
  cases hret : k.returned v with
  | none => simp [Loop.scan, hret]
  | some b => cases b <;> simp [Loop.scan, hret]

/-- INTERNAL: the test of `empty` sees whether the list will be empty when all calls in
front of it have finished. -/
theorem InProgress.isEmpty (h : InProgress g pc s t w A B) (hp : pc t = .emptyTest)
    {b : Node Tid T} (hb : s.heap beforeBegin = some b) :
    (settle B []).1.isEmpty = b.mNext.isNone := by
  have hafter : (pc t).after = some beforeBegin := by rw [hp]; rfl
  have hown : beforeBegin ∈ (pc t).owned := by rw [hp]; exact List.mem_singleton_self _
  obtain ⟨-, hplaced, hlinked⟩ := h.position hafter
  cases hn : b.mNext with
  | none =>
    obtain rfl := h.no_next hafter (by simp [nextOf, hb, hn])
    rfl
  | some a =>
    cases B with
    | nil =>
      have hnone : nextOf s.heap beforeBegin = none := hlinked
      simp [nextOf, hb, hn] at hnone
    | cons x B =>
      cases x with
      | cell c v => simp [settle]
      | stage u w' =>
        rcases hplaced.1 with hafter' | ⟨k, cur, v, r, hu, rfl⟩
        · exact absurd hafter' (h.not_after hown (u, w') (List.mem_cons_self ..))
        · have hwork := h.fits.stage (u, w') (by simp)
          simp only [hu, Pc.work, Option.some.injEq] at hwork
          subst hwork
          simpa [settle] using scan_ne_nil k v (settle r []).1

/-- Every step of a call in progress does a part of its work, and is not seen. -/
theorem InProgress.rewrites (h : InProgress g pc s t w A B) {p' : Pc L T}
    (hs : FlistStep t (pc t) s l p' s') (hpc : ∀ u, u ≠ t → pc' u = pc u) (ht : pc' t = p') :
    l.seen = none ∧ ∃ Y, Rewrites pc t w A B Y l pc' s' := by
  have hwork := h.work
  have hplaces := (h.loc t).2
  generalize hp : pc t = p at hs hwork hplaces
  have hs' : FlistStep t (pc t) s l p' s' := hp ▸ hs
  cases hs with
  | client hc =>
    cases hc with
    | call | ret | makeNode | pushLock | emptyLock | unlock => cases hwork
    | pushLink hb hnd => exact ⟨rfl, h.pushLink hp hb hnd hpc ht⟩
    | emptyTest hb =>
      obtain rfl := Option.some.inj hwork
      refine ⟨rfl, _, h.leave hs' hpc ht rfl rfl ?_ rfl (by simp [hp]) (by simp [hp])⟩
      simp [Pc.status, Op.seq, h.isEmpty hp hb]
  | scan hc =>
    cases hc with
    | start => cases hwork
    | @test _ k prev q hq =>
      have hafter : (pc t).after = some prev := by rw [hp]; rfl
      obtain rfl := Option.some.inj hwork
      cases hn : q.mNext with
      | none =>
        rw [hn] at hs' ht
        obtain rfl := h.no_next hafter (by simp [nextOf, hq, hn])
        exact ⟨rfl, _, h.leave hs' hpc ht rfl rfl rfl rfl (by simp [hp]) (by simp [hp])⟩
      | some cur =>
        rw [hn] at hs' ht
        exact ⟨rfl, h.remain hs' hpc ht rfl rfl hafter rfl (by simp [hp]) (by simp [hp])⟩
    | @lock _ k prev cur nd hnd hm =>
      exact ⟨rfl, h.remain hs' hpc ht rfl hwork (by rw [hp]; rfl) rfl
        (by simp [hp]) (by simp [hp])⟩
    | @unlockPrev _ k prev cur q hq =>
      have hafter : (pc t).after = some prev := by rw [hp]; rfl
      obtain ⟨v, B', rfl⟩ := h.next_cell hafter hplaces.2 (by simp [hp, Pc.owned])
      exact ⟨rfl, _, h.stay hs' hpc ht rfl hwork (.inr ⟨k, cur, v, B', rfl, rfl⟩)
        (by simp [hp]) (by simp [hp])⟩
    | visit hnd hv => exact ⟨rfl, h.scanVisit hp hnd hv hpc ht⟩
  | remove hc =>
    cases hc with
    | start => cases hwork
    | unwind => cases hwork
    | @test _ k once prev q hq =>
      have hafter : (pc t).after = some prev := by rw [hp]; rfl
      obtain rfl := Option.some.inj hwork
      cases hn : q.mNext with
      | none =>
        rw [hn] at hs' ht
        obtain rfl := h.no_next hafter (by simp [nextOf, hq, hn])
        exact ⟨rfl, _, h.leave hs' hpc ht rfl rfl rfl rfl (by simp [hp]) (by simp [hp])⟩
      | some cur =>
        rw [hn] at hs' ht
        exact ⟨rfl, h.remain hs' hpc ht rfl rfl hafter rfl (by simp [hp]) (by simp [hp])⟩
    | @lock _ k once prev cur nd hnd hm =>
      exact ⟨rfl, h.remain hs' hpc ht rfl hwork (by rw [hp]; rfl) rfl
        (by simp [hp]) (by simp [hp])⟩
    | visit hnd hv => exact ⟨rfl, h.removeVisit hp hnd hv hpc ht⟩
    | @unlockPrev _ k once prev cur q hq =>
      exact ⟨rfl, h.remain hs' hpc ht rfl hwork (by rw [hp]; rfl) rfl
        (by simp [hp]) (by simp [hp])⟩
    | unlink hq hnd => exact ⟨rfl, h.unlinkCur hp hq hnd hpc ht⟩
    | @unlockCur _ k once prev cur nd hnd =>
      exact ⟨rfl, h.remain hs' hpc ht rfl hwork (by rw [hp]; rfl) rfl
        (by simp [hp]) (by simp [hp])⟩
    | @destroy _ k once prev cur nd hnd =>
      have hafter : (pc t).after = some prev := by rw [hp]; rfl
      obtain rfl := Option.some.inj hwork
      cases once with
      | true => exact ⟨rfl, _, h.leave hs' hpc ht rfl rfl rfl rfl (by simp [hp]) (by simp [hp])⟩
      | false =>
        exact ⟨rfl, h.remain hs' hpc ht rfl rfl hafter rfl (by simp [hp]) (by simp [hp])⟩

end InProgress

/-! ## The simulation -/

/-- The list after all calls that have acquired the mutex of `m_before_begin` is what the
chain and the calls in progress settle to. -/
def SerialRel (c : Config Tid (Pc L T) (Shared Tid T)) (vs : List T)
    (f : Tid → Status (Op L T) (Res L T)) : Prop :=
  ∃ its, Fits c.pc c.sh.heap its ∧ vs = (settle its []).1 ∧
    (∀ x ∈ (settle its []).2, f x.1 = .done x.2) ∧ ∀ t st, (c.pc t).status = some st → f t = st

section Simulation

variable [DecidableEq Tid] {g g' : Ghost Tid} {c : Config Tid (Pc L T) (Shared Tid T)} {t : Tid}
  {l : Lab L T} {p' : Pc L T} {s' : Shared Tid T} {f : Tid → Status (Op L T) (Res L T)}
  {vs : List T}

/-- INTERNAL: a step of a call in progress is not seen at the sequential list. -/
theorem serialRel_work {w : List T → List T × Res L T} (hI : SharedInv g c.sh)
    (hloc : ∀ u, assertion g u (c.pc u) c.sh) (hI' : SharedInv g' s')
    (hchain : g'.chain = l.chainAfter g.chain) (hR : SerialRel c vs f)
    (hw : (c.pc t).work = some w) (hs : FlistStep t (c.pc t) c.sh l p' s') :
    l.seen = none ∧ SerialRel ⟨Function.update c.pc t p', s'⟩ vs f := by
  obtain ⟨its, hF, rfl, hres, hst⟩ := hR
  obtain ⟨A, B, rfl⟩ := List.append_of_mem (show Item.stage t w ∈ its by
    obtain ⟨x, hx, he⟩ := List.mem_filterMap.mp (hF.present t w hw)
    cases x with
    | cell a v => cases he
    | stage u w' => cases he; exact hx)
  have hin : InProgress g c.pc c.sh t w A B := ⟨hI, hloc, hF⟩
  have hpc : ∀ u, u ≠ t → Function.update c.pc t p' u = c.pc u := fun u hu =>
    Function.update_of_ne hu ..
  obtain ⟨hseen, Y, hY⟩ := hin.rewrites hs hpc (Function.update_self ..)
  have hlinked : Linked (nextOf s'.heap) beforeBegin (cells (A ++ Y)) := by
    rw [Concurrency.cells_append, hY.chain, hin.chain, ← hchain]
    exact hI'.linked
  obtain ⟨hval, hmem⟩ := Concurrency.settle_replace A (B := .stage t w :: B) (C := Y)
    hY.value
  refine ⟨hseen, A ++ Y, hF.replace (t := t) hpc hlinked
    hY.element hY.placed (fun b v r he => absurd he (by simp)) (by simp [ownStage, hw])
    hY.stages hin.others, hval.symm, fun x hx => ?_, fun u st hu => ?_⟩
  · refine hres x ?_
    rcases hmem x hx with hx | hx
    · exact hx
    · rw [Concurrency.settle_append]
      refine List.mem_append_right _ ?_
      rcases hY.results x hx with rfl | hx
      · exact List.mem_cons_self ..
      · exact List.mem_cons_of_mem _ hx
  · by_cases hut : u = t
    · subst hut
      rw [hY.status st hu]
      refine hres (u, _) ?_
      rw [Concurrency.settle_append]
      exact List.mem_append_right _ (List.mem_cons_self ..)
    · exact hst u st (by simpa [hut] using hu)

omit [DecidableEq Tid] in
/-- INTERNAL: a call that has no place in the chain is not in the sequence. -/
theorem Fits.stage_ne {its : Items Tid L T} (hF : Fits c.pc c.sh.heap its)
    (hw : (c.pc t).work = none) {x : Tid × (List T → List T × Res L T)} (hx : x ∈ stages its) :
    x.1 ≠ t := fun he => by
  have h := hF.stage x hx
  rw [he, hw] at h
  cases h

/-- INTERNAL: the calls in progress after a step of a call that has no place in the chain
yet or any more, or takes its place at the front. -/
theorem Fits.outside {its : Items Tid L T} (hI : SharedInv g c.sh)
    (hloc : ∀ u, assertion g u (c.pc u) c.sh) (hI' : SharedInv g' s') (hchain : g'.chain = g.chain)
    (hF : Fits c.pc c.sh.heap its) (hw : (c.pc t).work = none)
    (hs : FlistStep t (c.pc t) c.sh l p' s') (hat : p'.work ≠ none → p'.after = some beforeBegin) :
    Fits (Function.update c.pc t p') s'.heap
      ((p'.work.map fun w => .stage t w).toList ++ its) := by
  have hpc : ∀ u, u ≠ t → Function.update c.pc t p' u = c.pc u := fun u hu =>
    Function.update_of_ne hu ..
  have hcells : cells its = g.chain := hF.linked.unique hI.linked
  have ht : ∀ x ∈ stages its, x.1 ≠ t := fun x hx => hF.stage_ne hw hx
  have helem : ∀ a v, .cell a v ∈ its → elementOf s'.heap a = some v := fun a v ha => by
    have hmem : a ∈ g.chain := hcells ▸ Concurrency.mem_cells ha
    have hvisit : ∀ k, c.pc t ≠ .scanVisit k a := fun k hk => by simp [hk, Pc.work] at hw
    have hvisit' : ∀ k once prev, c.pc t ≠ .removeVisit k once prev a := fun k once prev hk => by
      simp [hk, Pc.work] at hw
    exact (flistStep_element hI (hloc t) hs hmem hvisit hvisit').trans (hF.element a v ha)
  have hplaced : Placed (Function.update c.pc t p') beforeBegin its :=
    hF.placed.congr fun x hx => hpc x.1 (ht x hx)
  have hlinked : Linked (nextOf s'.heap) beforeBegin (cells its) := by
    rw [hcells, ← hchain]
    exact hI'.linked
  have hold : stages its = ownStage t (c.pc t) ++ stages its := by simp [ownStage, hw]
  cases hw' : p'.work with
  | none =>
    exact hF.replace (A := []) (X := its) (Y := its) hpc hlinked helem hplaced (fun _ _ _ _ => rfl)
      hold (by simp [ownStage, hw']) ht
  | some w =>
    refine hF.replace (A := []) (X := its) (Y := .stage t w :: its) hpc hlinked
      (fun a v ha => helem a v ?_) ⟨.inl ?_, hplaced⟩ (fun _ _ _ _ => rfl) hold
      (by simp [ownStage, hw']) ht
    · simpa using ha
    · rw [Function.update_self]
      exact hat (by simp [hw'])

/-- INTERNAL: a step of a call that has no place in the chain before and after, with the
move of the sequential list that it is. -/
theorem serialRel_outside (hI : SharedInv g c.sh) (hloc : ∀ u, assertion g u (c.pc u) c.sh)
    (hI' : SharedInv g' s') (hchain : g'.chain = g.chain) (hR : SerialRel c vs f)
    (hw : (c.pc t).work = none) (hs : FlistStep t (c.pc t) c.sh l p' s') (hw' : p'.work = none)
    {st : Status (Op L T) (Res L T)} (hst : p'.status = some st) :
    SerialRel ⟨Function.update c.pc t p', s'⟩ vs (Function.update f t st) := by
  obtain ⟨its, hF, rfl, hres, hstat⟩ := hR
  have hF' := hF.outside hI hloc hI' hchain hw hs (fun h => absurd hw' h)
  rw [hw'] at hF'
  refine ⟨its, hF', rfl, fun x hx => ?_, fun u st' hu => ?_⟩
  · obtain ⟨w, hmem⟩ := Concurrency.mem_stages_of_settle hx
    rw [Function.update_of_ne (hF.stage_ne hw hmem)]
    exact hres x hx
  · by_cases hut : u = t
    · subst hut
      simp only [Function.update_self] at hu ⊢
      exact Option.some.inj (hst.symm.trans hu)
    · simp only [Function.update_of_ne hut] at hu ⊢
      exact hstat u st' hu

/-- INTERNAL: a call takes effect when it takes its place at the front of the chain. -/
theorem serialRel_acquire (op : Op L T) (hI : SharedInv g c.sh)
    (hloc : ∀ u, assertion g u (c.pc u) c.sh) (hI' : SharedInv g' s') (hchain : g'.chain = g.chain)
    (hR : SerialRel c vs f) (hw : (c.pc t).work = none)
    (hpend : (c.pc t).status = some (.pending op)) (hs : FlistStep t (c.pc t) c.sh l p' s')
    (hw' : p'.work = some op.seq) (hafter : p'.after = some beforeBegin) :
    ∃ vs' st', AtomicMove (listSpec L T) vs (f t) (some (.lin op (op.seq vs).2)) vs' st' ∧
      SerialRel ⟨Function.update c.pc t p', s'⟩ vs' (Function.update f t st') := by
  obtain ⟨its, hF, rfl, hres, hstat⟩ := hR
  have hF' := hF.outside hI hloc hI' hchain hw hs (fun _ => hafter)
  rw [hw'] at hF'
  rw [hstat t _ hpend]
  refine ⟨(op.seq (settle its []).1).1, _, .lin rfl, _, hF', rfl, fun x hx => ?_, fun u st' hu => ?_⟩
  · rcases List.mem_cons.mp hx with rfl | hx
    · exact Function.update_self ..
    · obtain ⟨w, hmem⟩ := Concurrency.mem_stages_of_settle hx
      rw [Function.update_of_ne (hF.stage_ne hw hmem)]
      exact hres x hx
  · by_cases hut : u = t
    · subst hut
      simp [status_of_work hw'] at hu
    · simp only [Function.update_of_ne hut] at hu ⊢
      exact hstat u st' hu

/-- INTERNAL: the sequential list follows every step of a call outside the chain. -/
theorem serialRel_step_outside (hI : SharedInv g c.sh) (hloc : ∀ u, assertion g u (c.pc u) c.sh)
    (hI' : SharedInv g' s') (hchain : g'.chain = l.chainAfter g.chain) (hR : SerialRel c vs f)
    (hw : (c.pc t).work = none) (hs : FlistStep t (c.pc t) c.sh l p' s') :
    ∃ v vs' st', AtomicMove (listSpec L T) vs (f t) v vs' st' ∧
      v.bind Concurrency.Point.seen = l.seen ∧
      SerialRel ⟨Function.update c.pc t p', s'⟩ vs' (Function.update f t st') := by
  have hft : ∀ st, (c.pc t).status = some st → f t = st := by
    obtain ⟨-, -, -, -, hstat⟩ := hR
    exact hstat t
  generalize hp : c.pc t = p at hs hw hft
  have hs' : FlistStep t (c.pc t) c.sh l p' s' := hp ▸ hs
  have hw' : (c.pc t).work = none := hp ▸ hw
  cases hs with
  | client hc =>
    cases hc with
    | call _ op =>
      rw [hft _ rfl]
      refine ⟨_, vs, _, .call vs op, rfl, ?_⟩
      refine serialRel_outside hI hloc hI' hchain hR hw' hs' ?_ ?_
      · cases op <;> rfl
      · cases op <;> rfl
    | ret _ r =>
      rw [hft _ rfl]
      exact ⟨_, vs, _, .ret vs r, rfl, serialRel_outside hI hloc hI' hchain hR hw' hs' rfl rfl⟩
    | makeNode _ v =>
      exact ⟨none, vs, f t, .stutter vs _, rfl,
        serialRel_outside hI hloc hI' hchain hR hw' hs' rfl (congrArg some (hft _ rfl).symm)⟩
    | @unlock _ a r nd h =>
      exact ⟨none, vs, f t, .stutter vs _, rfl,
        serialRel_outside hI hloc hI' hchain hR hw' hs' rfl (congrArg some (hft _ rfl).symm)⟩
    | @pushLock _ v a b h hm =>
      obtain ⟨vs', st', hmove, hR'⟩ := serialRel_acquire (.pushFront v) hI hloc hI' hchain hR
        hw' (by rw [hp]; rfl) hs' rfl rfl
      exact ⟨_, vs', st', hmove, rfl, hR'⟩
    | emptyLock h hm =>
      obtain ⟨vs', st', hmove, hR'⟩ := serialRel_acquire .empty hI hloc hI' hchain hR
        hw' (by rw [hp]; rfl) hs' rfl rfl
      exact ⟨_, vs', st', hmove, rfl, hR'⟩
    | pushLink | emptyTest => cases hw
  | scan hc =>
    cases hc with
    | @start _ body loc b h hm =>
      obtain ⟨vs', st', hmove, hR'⟩ := serialRel_acquire (.scan body loc) hI hloc hI' hchain hR
        hw' (by rw [hp]; rfl) hs' rfl rfl
      exact ⟨_, vs', st', hmove, rfl, hR'⟩
    | _ => cases hw
  | remove hc =>
    cases hc with
    | @start _ q once loc b h hm =>
      obtain ⟨vs', st', hmove, hR'⟩ := serialRel_acquire (.remove q once loc) hI hloc hI' hchain
        hR hw' (by rw [hp]; rfl) hs' rfl rfl
      exact ⟨_, vs', st', hmove, rfl, hR'⟩
    | @unwind _ prev cur r nd h =>
      exact ⟨none, vs, f t, .stutter vs _, rfl,
        serialRel_outside hI hloc hI' hchain hR hw' hs' rfl (congrArg some (hft _ rfl).symm)⟩
    | _ => cases hw

/-- INTERNAL: the sequential list follows every step. -/
theorem serialRel_simulates :
    Simulates (FlistStep : Concurrency.Program Tid (Pc L T) (Shared Tid T) (Lab L T))
      (fun c e => anyStep c e ∧ ∃ tr, Run FlistStep anyStep (newList Tid L T) tr c) (listSpec L T)
      Lab.seen Concurrency.Point.seen SerialRel := by
  constructor
  rintro c c' t l vs f hR ⟨-, tr, hrun⟩ ⟨hs⟩
  obtain ⟨g, hI, hloc⟩ := outline_run hrun
  obtain ⟨g', hI', -, hchain, -⟩ := flistStep_guarantee hI (hloc t) hs
  cases hw : (c.pc t).work with
  | none => exact serialRel_step_outside hI hloc hI' hchain hR hw hs
  | some w =>
    obtain ⟨hseen, hR'⟩ := serialRel_work hI hloc hI' hchain hR hw hs
    refine ⟨none, vs, f t, .stutter vs _, hseen.symm, ?_⟩
    rwa [Function.update_eq_self]

omit [DecidableEq Tid] in
/-- INTERNAL: a list just constructed is empty, and no call is in progress. -/
theorem serialRel_newList : SerialRel (newList Tid L T) [] fun _ => .idle := by
  refine ⟨[], ⟨?_, by simp, trivial, by simp, fun t w hw => ?_, by simp⟩, rfl, by simp [settle],
    fun t st hst => Option.some.inj hst⟩
  · simp [newList, Linked, nextOf]
  · cases hw

omit [DecidableEq Tid] in
/-- INTERNAL: when no call is in progress the chain holds the elements of the sequential
list. -/
theorem SerialRel.elements {vs : List T} {f : Tid → Status (Op L T) (Res L T)}
    (h : SerialRel c vs f) (hwork : ∀ u, (c.pc u).work = none) :
    ∃ xs, Chain c.sh xs ∧ xs.map (elementOf c.sh.heap) = vs.map some := by
  obtain ⟨its, hF, rfl, -, -⟩ := h
  have hstages : stages its = [] := by
    refine List.eq_nil_iff_forall_not_mem.mpr fun x hx => ?_
    have hw := hF.stage x hx
    rw [hwork x.1] at hw
    cases hw
  exact ⟨cells its, hF.linked, (Concurrency.settle_of_stages_nil hstages hF.element).symm⟩

end Simulation

section Runs

variable [DecidableEq Tid] {tr : List (Tid × Lab L T)} {c : Config Tid (Pc L T) (Shared Tid T)}

end Runs

end UbuntuProjects.TfgFlist
