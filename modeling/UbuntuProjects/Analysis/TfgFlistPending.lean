import UbuntuProjects.Analysis.TfgFlistProgress
import UbuntuProjects.Analysis.TfgFlistSequential
import UbuntuProjects.Concurrency.Pipeline
import UbuntuProjects.Concurrency.Serializable

/-!
# `tfg_flist`: the calls in progress along the chain

A call that has acquired the mutex of `m_before_begin` has its place in the chain: what it
still has to do (`Pc.work`) concerns the elements behind a node whose mutex it owns
(`Pc.after`), or, during a callback of `for_each` or `for_first_of`, the elements from the
node of the callback on. The nodes of the chain and the calls in progress stand in one
sequence (`Fits`). Two calls never change places in it: between them lies a node, or the
one in front owns the mutex of the next node and the one behind has yet to lock it.
-/

set_option autoImplicit false

namespace UbuntuProjects.TfgFlist

open Concurrency (Config Linked Item cells stages settle Status Seen)

variable {Tid L T : Type}

/-- The element of a node. -/
def elementOf (heap : Addr → Option (Node Tid T)) (a : Addr) : Option T :=
  (heap a).bind Node.mPdata

/-- What a call that has acquired the mutex of `m_before_begin` will do to the elements
behind its place, and its result. -/
def Pc.work : Pc L T → Option (List T → List T × Res L T)
  | .pushLink v _ => some (Op.pushFront v).seq
  | .emptyTest => some Op.empty.seq
  | .scanTest k _ | .scanLock k _ _ | .scanUnlockPrev k _ _ | .scanVisit k _ => some k.scan
  | .removeTest k once _ | .removeLock k once _ _ | .removeVisit k once _ _
  | .removeUnlockPrev k once _ _ => some (k.remove once)
  | .unlink k once _ _ => some fun vs => k.afterErase once vs.tail
  | .unlockCur k once _ _ | .destroy k once _ _ => some (k.afterErase once)
  | _ => none

/-- The node behind which a call has its place. -/
def Pc.after : Pc L T → Option Addr
  | .pushLink _ _ | .emptyTest => some beforeBegin
  | .scanTest _ prev | .scanLock _ prev _ | .scanUnlockPrev _ prev _ => some prev
  | .removeTest _ _ prev | .removeLock _ _ prev _ | .removeVisit _ _ prev _
  | .unlink _ _ prev _ | .unlockCur _ _ prev _ | .destroy _ _ prev _ => some prev
  | .removeUnlockPrev _ _ _ cur => some cur
  | _ => none

/-- What has become of a call that has no place in the chain. -/
def Pc.status : Pc L T → Option (Status (Op L T) (Res L T))
  | .idle => some .idle
  | .makeNode v | .pushLock v _ => some (.pending (.pushFront v))
  | .emptyLock => some (.pending .empty)
  | .scanStart body l => some (.pending (.scan body l))
  | .removeStart p once l => some (.pending (.remove p once l))
  | .unwind _ _ r | .unlock _ r | .returning r => some (.done r)
  | _ => none

/-- The nodes of the chain with their elements, and the calls in progress between them. -/
abbrev Items (Tid L T : Type) : Type := List (Item Addr Tid T (Res L T))

/-- A call has its place behind node `a` and in front of `rest`. -/
def At (p : Pc L T) (a : Addr) (rest : Items Tid L T) : Prop :=
  p.after = some a ∨ ∃ k cur v r, p = .scanVisit k cur ∧ rest = .cell cur v :: r

/-- Every call of the sequence has its place where it stands, if the node before the
sequence is `a`. -/
def Placed (pc : Tid → Pc L T) : Addr → Items Tid L T → Prop
  | _, [] => True
  | _, .cell b _ :: rest => Placed pc b rest
  | a, .stage t _ :: rest => At (pc t) a rest ∧ Placed pc a rest

/-- The sequence is that of the chain and of all calls in progress. -/
structure Fits (pc : Tid → Pc L T) (heap : Addr → Option (Node Tid T)) (its : Items Tid L T) :
    Prop where
  linked : Linked (nextOf heap) beforeBegin (cells its)
  element : ∀ a v, .cell a v ∈ its → elementOf heap a = some v
  placed : Placed pc beforeBegin its
  stage : ∀ x ∈ stages its, (pc x.1).work = some x.2
  present : ∀ t w, (pc t).work = some w → (t, w) ∈ stages its
  once : ((stages its).map Prod.fst).Nodup

/-! ## Places -/

section Places

variable {pc pc' : Tid → Pc L T} {heap heap' : Addr → Option (Node Tid T)} {a b : Addr}
  {A X Y : Items Tid L T} {t u : Tid} {p : Pc L T}

/-- INTERNAL: a call owns the mutex of the node behind which it has its place. -/
theorem after_mem_owned (h : p.after = some a) : a ∈ p.owned := by
  cases p <;> simp_all [Pc.after, Pc.owned]

/-- INTERNAL: a call with a place is in progress. -/
theorem status_of_work {w : List T → List T × Res L T} (h : p.work = some w) :
    p.status = none := by
  cases p <;> first | rfl | cases h

/-- INTERNAL: a mutex has one owner. -/
theorem Owns.unique (h : Owns heap t a) (h' : Owns heap u a) : t = u := by
  obtain ⟨nd, hnd, hm⟩ := h
  obtain ⟨nd', hnd', hm'⟩ := h'
  obtain rfl := Option.some.inj (hnd.symm.trans hnd')
  exact Option.some.inj (hm.symm.trans hm')

/-- INTERNAL: a place behind a node is behind that node only. -/
theorem At.eq (h : At p a X) (hb : p.after = some b) : a = b := by
  rcases h with h | ⟨k, cur, v, r, rfl, -⟩
  · exact Option.some.inj (h.symm.trans hb)
  · cases hb

/-- INTERNAL: the places in the rest of a sequence. -/
theorem Placed.drop (h : Placed pc a (A ++ X)) : Placed pc ((cells A).getLastD a) X := by
  induction A generalizing a with
  | nil => exact h
  | cons x A ih =>
    cases x with
    | cell b v =>
      rw [Concurrency.cells_cell, List.getLastD_cons]
      exact ih h
    | stage u w => exact ih h.2

/-- INTERNAL: the places depend on the calls of the sequence only. -/
theorem Placed.congr (h : Placed pc a X) (hpc : ∀ x ∈ stages X, pc' x.1 = pc x.1) :
    Placed pc' a X := by
  induction X generalizing a with
  | nil => trivial
  | cons x X ih =>
    cases x with
    | cell b v => exact ih h hpc
    | stage u w =>
      refine ⟨?_, ih h.2 fun x hx => hpc x (List.mem_cons_of_mem _ hx)⟩
      rw [hpc (u, w) (List.mem_cons_self ..)]
      exact h.1

/-- INTERNAL: the node before a sequence can be exchanged if no call has its place right
behind it. -/
theorem Placed.shift (h : Placed pc a X) (hX : ∀ x ∈ stages X, (pc x.1).after ≠ some a) :
    Placed pc b X := by
  induction X with
  | nil => trivial
  | cons x X ih =>
    cases x with
    | cell c v => exact h
    | stage u w =>
      refine ⟨.inr ?_, ih h.2 fun x hx => hX x (List.mem_cons_of_mem _ hx)⟩
      exact h.1.resolve_left (hX (u, w) (List.mem_cons_self ..))

/-- INTERNAL: the rest of a sequence is exchanged. The calls in front of it see of the old
rest only a cell at its start. -/
theorem Placed.replace (h : Placed pc a (A ++ X)) (hpc : ∀ x ∈ stages A, pc' x.1 = pc x.1)
    (hX : ∀ b v r, X = .cell b v :: r → A = [])
    (hY : Placed pc' ((cells A).getLastD a) Y) : Placed pc' a (A ++ Y) := by
  induction A generalizing a with
  | nil => exact hY
  | cons x A ih =>
    have hX' : ∀ b v r, X = .cell b v :: r → A = [] := fun b v r he =>
      absurd (hX b v r he) (List.cons_ne_nil _ _)
    cases x with
    | cell b v =>
      rw [Concurrency.cells_cell, List.getLastD_cons] at hY
      exact ih h hpc hX' hY
    | stage u w =>
      refine ⟨?_, ih h.2 (fun x hx => hpc x (List.mem_cons_of_mem _ hx)) hX' hY⟩
      rw [hpc (u, w) (List.mem_cons_self ..)]
      rcases h.1 with hafter | ⟨k, cur, v, r, hu, hr⟩
      · exact .inl hafter
      · refine .inr ?_
        cases A with
        | nil => exact absurd (hX cur v r hr) (List.cons_ne_nil _ _)
        | cons y A =>
          obtain ⟨rfl, -⟩ := List.cons.inj hr
          exact ⟨k, cur, v, _, hu, rfl⟩

end Places

/-! ## Exchanging the rest of the sequence -/

/-- The stage of a call in progress. -/
def ownStage (t : Tid) (p : Pc L T) : List (Tid × (List T → List T × Res L T)) :=
  (p.work.map fun w => (t, w)).toList

section Exchange

variable {pc pc' : Tid → Pc L T} {heap heap' : Addr → Option (Node Tid T)}
  {A X Y : Items Tid L T} {t : Tid} {others : List (Tid × (List T → List T × Res L T))}

/-- INTERNAL: after a step of `t` the rest of the sequence from the place of `t` on is
exchanged; the other calls stay. -/
theorem Fits.replace (hF : Fits pc heap (A ++ X)) (hpc : ∀ u, u ≠ t → pc' u = pc u)
    (hlinked : Linked (nextOf heap') beforeBegin (cells (A ++ Y)))
    (helem : ∀ a v, .cell a v ∈ A ++ Y → elementOf heap' a = some v)
    (hplaced : Placed pc' ((cells A).getLastD beforeBegin) Y)
    (hX : ∀ b v r, X = .cell b v :: r → A = [])
    (hold : stages X = ownStage t (pc t) ++ others)
    (hnew : stages Y = ownStage t (pc' t) ++ others)
    (ht : ∀ x ∈ stages A ++ others, x.1 ≠ t) : Fits pc' heap' (A ++ Y) where
  linked := hlinked
  element := helem
  placed := hF.placed.replace
    (fun x hx => hpc x.1 (ht x (List.mem_append_left _ hx))) hX hplaced
  stage x hx := by
    rw [Concurrency.stages_append, hnew] at hx
    have hother : x ∈ stages A ++ others → (pc' x.1).work = some x.2 := fun hx => by
      rw [hpc x.1 (ht x hx)]
      refine hF.stage x ?_
      rw [Concurrency.stages_append, hold]
      simp only [List.mem_append] at hx ⊢
      tauto
    simp only [List.mem_append] at hx hother
    rcases hx with hx | hx | hx
    · exact hother (.inl hx)
    · cases hw : (pc' t).work with
      | none => simp [ownStage, hw] at hx
      | some w =>
        obtain rfl : x = (t, w) := by simpa [ownStage, hw] using hx
        exact hw
    · exact hother (.inr hx)
  present u w hw := by
    rw [Concurrency.stages_append, hnew]
    by_cases hu : u = t
    · subst hu
      simp [ownStage, hw]
    · rw [hpc u hu] at hw
      have hmem := hF.present u w hw
      rw [Concurrency.stages_append, hold] at hmem
      simp only [List.mem_append] at hmem ⊢
      rcases hmem with hmem | hmem | hmem
      · exact .inl hmem
      · cases hwt : (pc t).work with
        | none => simp [ownStage, hwt] at hmem
        | some w' => simp [ownStage, hwt, hu] at hmem
      · exact .inr (.inr hmem)
  once := by
    have hrest : ((stages A ++ others).map Prod.fst).Nodup := by
      refine hF.once.sublist (List.Sublist.map _ ?_)
      rw [Concurrency.stages_append, hold]
      exact List.Sublist.append (List.Sublist.refl _) (List.sublist_append_right ..)
    rw [Concurrency.stages_append, hnew]
    cases hw : (pc' t).work with
    | none => simpa [ownStage, hw] using hrest
    | some w =>
      have hperm : (stages A ++ ([(t, w)] ++ others)).Perm ((t, w) :: (stages A ++ others)) := by
        simp
      simp only [ownStage, hw, Option.map_some, Option.toList_some]
      refine (hperm.map Prod.fst).nodup_iff.mpr (List.nodup_cons.mpr ⟨fun hmem => ?_, hrest⟩)
      obtain ⟨x, hx, hxt⟩ := List.mem_map.mp hmem
      exact ht x hx hxt

end Exchange

end UbuntuProjects.TfgFlist
