import UbuntuProjects.Model.TfgFlist

/-!
# `tfg_flist`: what the calls do one after another

The list as a sequential object (`listSpec`): `push_front` puts an element in front, the
loops go through the elements from the front and thread the data of the caller through
their callback. For callbacks that only look at the element the loops are the operations
on lists of these names: `remove_if` filters, `remove_first_if` takes the first match out
and says whether there was one, `for_each` visits every element in order and
`for_first_of` the elements up to the first match.
-/

set_option autoImplicit false

namespace UbuntuProjects.TfgFlist

open Concurrency (SeqSpec)

variable {L T : Type}

/-- What `for_each` and `for_first_of` still do to the elements before them. -/
def Loop.scan (k : Loop L T) : List T → List T × Res L T
  | [] => ([], k.result .void)
  | v :: rest =>
    match k.returned v with
    | none => (k.written v :: rest, (k.next v).result .thrown)
    | some true => (k.written v :: rest, (k.next v).result .void)
    | some false => (k.written v :: ((k.next v).scan rest).1, ((k.next v).scan rest).2)

/-- What `remove_if` and `remove_first_if` still do to the elements before them. -/
def Loop.remove (once : Bool) (k : Loop L T) : List T → List T × Res L T
  | [] => ([], k.exhausted once)
  | v :: rest =>
    match k.returned v with
    | none => (k.written v :: rest, (k.next v).result .thrown)
    | some true =>
      if once then (rest, (k.next v).result (.bool true)) else (k.next v).remove once rest
    | some false =>
      (k.written v :: ((k.next v).remove once rest).1, ((k.next v).remove once rest).2)

/-- What is still to be done once a node was erased. -/
def Loop.afterErase (once : Bool) (k : Loop L T) (vs : List T) : List T × Res L T :=
  if once then (vs, k.result (.bool true)) else k.remove once vs

/-- One call on a list. -/
def Op.seq : Op L T → List T → List T × Res L T
  | .pushFront v, vs => (v :: vs, .of .void)
  | .empty, vs => (vs, .of (.bool vs.isEmpty))
  | .scan body l, vs => Loop.scan ⟨body, l, []⟩ vs
  | .remove p once l, vs => Loop.remove once ⟨p, l, []⟩ vs

/-- The list as a sequential object, empty at first. -/
def listSpec (L T : Type) : SeqSpec (Op L T) (Res L T) (List T) :=
  ⟨[], fun vs op r vs' => op.seq vs = (vs', r)⟩

/-! ## Callbacks that only look at the element -/

/-- A predicate that only looks at the element. -/
def inspect (q : T → Bool) : Callback L T Bool := fun l v => (l, v, some (q v))

section Inspect

variable (q : T → Bool) (l : L)

/-- INTERNAL: `remove_if` from the middle. -/
theorem remove_filter (vis vs : List T) :
    Loop.remove false ⟨inspect q, l, vis⟩ vs =
      (vs.filter fun v => !q v, .loop .void l (vis ++ vs)) := by
  induction vs generalizing vis with
  | nil => simp [Loop.remove, Loop.exhausted, Loop.result]
  | cons v vs ih =>
    have hnext : Loop.next ⟨inspect q, l, vis⟩ v = ⟨inspect q, l, vis ++ [v]⟩ := rfl
    cases hq : q v with
    | true =>
      have hret : Loop.returned ⟨inspect q, l, vis⟩ v = some true := congrArg some hq
      simp [Loop.remove, hret, hnext, ih, hq]
    | false =>
      have hret : Loop.returned ⟨inspect q, l, vis⟩ v = some false := congrArg some hq
      have hwritten : Loop.written ⟨inspect q, l, vis⟩ v = v := rfl
      simp [Loop.remove, hret, hnext, hwritten, ih, hq]

/-- `remove_if` filters, and passes every element to the predicate. -/
theorem removeIf_filter (vs : List T) :
    (Op.removeIf (inspect q) l).seq vs = (vs.filter fun v => !q v, .loop .void l vs) :=
  remove_filter q l [] vs

/-- `clear` leaves nothing. -/
theorem clear_nil (vs : List T) : (Op.clear l).seq vs = ([], .loop .void l vs) := by
  have h := removeIf_filter (fun _ => true) l vs
  rwa [List.filter_eq_nil_iff.mpr (by simp)] at h

/-- INTERNAL: the elements up to the first match. -/
def upTo (q : T → Bool) (vs : List T) : List T := vs.takeWhile (fun v => !q v) ++ (vs.find? q).toList

/-- INTERNAL: `remove_first_if` from the middle. -/
theorem remove_eraseP (vis vs : List T) :
    Loop.remove true ⟨inspect q, l, vis⟩ vs =
      (vs.eraseP q, .loop (.bool (vs.any q)) l (vis ++ upTo q vs)) := by
  induction vs generalizing vis with
  | nil => simp [Loop.remove, Loop.exhausted, Loop.result, upTo]
  | cons v vs ih =>
    have hnext : Loop.next ⟨inspect q, l, vis⟩ v = ⟨inspect q, l, vis ++ [v]⟩ := rfl
    cases hq : q v with
    | true =>
      have hret : Loop.returned ⟨inspect q, l, vis⟩ v = some true := congrArg some hq
      simp [Loop.remove, hret, hnext, Loop.result, upTo, hq]
    | false =>
      have hret : Loop.returned ⟨inspect q, l, vis⟩ v = some false := congrArg some hq
      have hwritten : Loop.written ⟨inspect q, l, vis⟩ v = v := rfl
      simp [Loop.remove, hret, hnext, hwritten, ih, hq, upTo]

/-- `remove_first_if` takes the first match out and says whether there was one. -/
theorem removeFirstIf_eraseP (vs : List T) :
    (Op.removeFirstIf (inspect q) l).seq vs =
      (vs.eraseP q, .loop (.bool (vs.any q)) l (upTo q vs)) :=
  remove_eraseP q l [] vs

/-- INTERNAL: `for_each` and `for_first_of` from the middle. -/
theorem scan_upTo (vis vs : List T) :
    Loop.scan ⟨inspect q, l, vis⟩ vs = (vs, .loop .void l (vis ++ upTo q vs)) := by
  induction vs generalizing vis with
  | nil => simp [Loop.scan, Loop.result, upTo]
  | cons v vs ih =>
    have hnext : Loop.next ⟨inspect q, l, vis⟩ v = ⟨inspect q, l, vis ++ [v]⟩ := rfl
    have hwritten : Loop.written ⟨inspect q, l, vis⟩ v = v := rfl
    cases hq : q v with
    | true =>
      have hret : Loop.returned ⟨inspect q, l, vis⟩ v = some true := congrArg some hq
      simp [Loop.scan, hret, hnext, hwritten, Loop.result, upTo, hq]
    | false =>
      have hret : Loop.returned ⟨inspect q, l, vis⟩ v = some false := congrArg some hq
      simp [Loop.scan, hret, hnext, hwritten, ih, hq, upTo]

/-- `for_each` visits all elements in order. -/
theorem forEach_visits (vs : List T) :
    (Op.forEach (fun l v => (l, v, some ())) l).seq vs = (vs, .loop .void l vs) := by
  have hupTo : upTo (fun _ => false) vs = vs := by
    induction vs with
    | nil => rfl
    | cons v vs ih => simpa [upTo] using ih
  have h := scan_upTo (fun _ => false) l [] vs
  rw [hupTo] at h
  exact h

/-- `for_first_of` visits the elements up to the first match. -/
theorem forFirstOf_visits (vs : List T) :
    (Op.forFirstOf (fun l v => (l, v, some ())) (inspect q) l).seq vs =
      (vs, .loop .void l (upTo q vs)) := by
  have hbody : Op.forFirstOf (fun l v => (l, v, some ())) (inspect q) l = .scan (inspect q) l := by
    unfold Op.forFirstOf
    congr 1
    funext l v
    cases hq : q v <;> simp [inspect, hq]
  rw [hbody]
  exact scan_upTo q l [] vs

end Inspect

end UbuntuProjects.TfgFlist
