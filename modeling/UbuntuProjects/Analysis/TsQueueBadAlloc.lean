import UbuntuProjects.Model.TsQueueBadAlloc
import UbuntuProjects.Analysis.TsQueueContents

/-!
# An allocation failure in a move of `ts_queue` breaks the queues

Whatever the two queues hold, when `new node` throws in a move operation the source is left
with a null `m_head`. The move constructor has then deleted every node of the source with
the new object that owned them (`moveConstruct_newThrows`); the move assignment leaves the
destination with an `m_tail` that points to its old dummy node, which has been deleted
(`moveAssign_newThrows`).
-/

set_option autoImplicit false

namespace UbuntuProjects.TsQueue

open Concurrency

variable {Tid Q T : Type}

/-! ## Deleting a chain of nodes -/

section Deleting

variable {heap heap' : Addr → Option (Node T)} {a b : Addr} {xs : List Addr} {nd : Node T}

/-- Deleting the first node of a chain deletes all of them. -/
theorem Deletes.freed (hpath : Path (nextOf heap) a xs b) (h : Deletes heap (some a) heap') :
    ∀ x ∈ xs ++ [b], heap' x = none := by
  induction hpath generalizing heap' with
  | nil a =>
    intro x hx
    obtain rfl : x = a := by simpa using hx
    cases h with
    | node => exact Function.update_self ..
  | @cons a b c xs hn _ ih =>
    intro x hx
    cases h with
    | @node _ heap₁ nd hnd hrest =>
      by_cases hxa : x = a
      · subst hxa
        exact Function.update_self ..
      · have hnext : nd.mNext = some b := by simpa [nextOf, hnd] using hn
        rw [hnext] at hrest
        rw [Function.update_of_ne hxa]
        exact ih hrest x (by simpa [hxa] using hx)

/-- A chain that ends in a node without successor can be deleted. -/
theorem exists_deletes (hpath : Path (nextOf heap) a xs b) (hb : heap b = some nd)
    (hlast : nd.mNext = none) : ∃ heap', Deletes heap (some a) heap' := by
  induction hpath with
  | nil a =>
    have hnull : Deletes heap nd.mNext heap := by
      rw [hlast]
      exact .null heap
    exact ⟨_, .node hb hnull⟩
  | @cons a b c xs hn _ ih =>
    obtain ⟨heap₁, h₁⟩ := ih hb
    obtain ⟨nd₁, hnd₁, hnext⟩ := Option.bind_eq_some_iff.mp hn
    exact ⟨_, .node hnd₁ (hnext ▸ h₁)⟩

end Deleting

/-! ## What a move touches, and when it is safe -/

/-- The two queue objects of a move. -/
def Section.objects : Section Q → List Q
  | .clear q => [q]
  | .empty q => [q]
  | .moveConstruct this other => [this, other]
  | .moveAssign this other => [this, other]

/-- One of the queue objects has a node with the value `v`. -/
def HeldBy (s : Shared Tid Q T) (qs : List Q) (v : T) : Prop :=
  ∃ q ∈ qs, ∃ Q' hd xs a, s.queues q = some Q' ∧ Q'.mHead = some hd ∧
    Path (nextOf s.heap) hd xs a ∧ Stores s.heap a v

/-- From `s` to `s'` the move has done no harm: those of its queue objects that exist are
represented, and the elements of the source are still there. -/
structure NoHarm (m : Section Q) (other : Q) (s s' : Shared Tid Q T) : Prop where
  represented : ∀ q ∈ m.objects, ∀ Q', s'.queues q = some Q' → IsRepresented s' Q'
  kept : ∀ vs, Contents s other vs → ∀ v ∈ vs, HeldBy s' m.objects v

section Throwing

variable [DecidableEq Q] {own : Owners Tid Q} {s s' : Shared Tid Q T} {t : Tid} {this other : Q}

/-- INTERNAL: the state after the move constructor has thrown. -/
theorem exists_moveConstruct_newThrows (hI : SharedInv own s)
    (hin : Inside s t (.moveConstruct this other)) (hthis : s.queues this = none) :
    ∃ s', NewThrows (.moveConstruct this other) s s' := by
  obtain ⟨-, O, tl, hO, -, htl, hfresh⟩ := hin.2 other (by simp [Section.queues])
  obtain ⟨hd, tl', xs, hrep⟩ := hI.rep other O hO
  obtain rfl := Option.some.inj (htl.symm.trans hrep.tail)
  obtain ⟨heap', hdel⟩ := exists_deletes hrep.path hfresh rfl
  rw [← hrep.head] at hdel
  exact ⟨_, .moveConstruct hthis hO hdel⟩

/-- INTERNAL: the state after the move assignment has thrown. -/
theorem exists_moveAssign_newThrows (hin : Inside s t (.moveAssign this other))
    (hclear : Cleared s (.moveAssign this other)) :
    ∃ s', NewThrows (.moveAssign this other) s s' := by
  obtain ⟨-, D, tl, hD, -, htl, hfresh⟩ := hin.2 this (by simp [Section.queues])
  obtain ⟨-, O, -, hO, -⟩ := hin.2 other (by simp [Section.queues])
  obtain ⟨heap', hdel⟩ := exists_deletes (.nil tl) hfresh rfl
  rw [← htl, ← hclear D hD] at hdel
  exact ⟨_, .moveAssign hD hO hdel⟩

/-- After the move constructor has thrown, the new object is gone, the source has a null
`m_head`, and all nodes of the source are deleted. -/
theorem moveConstruct_newThrows (hI : SharedInv own s)
    (h : NewThrows (.moveConstruct this other) s s') :
    s'.queues this = none ∧ ∃ O O' hd tl xs, s.queues other = some O ∧
      QueueRep own s.heap other O hd tl xs ∧ s'.queues other = some O' ∧ O'.mHead = none ∧
      O'.mTail = some tl ∧ ∀ a ∈ xs ++ [tl], s'.heap a = none := by
  cases h with
  | @moveConstruct _ _ _ O heap' hthis hO hdel =>
    obtain ⟨hd, tl, xs, hrep⟩ := hI.rep other O hO
    have hne : this ≠ other := by
      rintro rfl
      simp [hthis] at hO
    rw [hrep.head] at hdel
    exact ⟨by simpa [Function.update_of_ne hne] using hthis, O, _, hd, tl, xs, hO, hrep,
      Shared.setQueue_self .., rfl, hrep.tail, hdel.freed hrep.path⟩

/-- After the move assignment has thrown, the source has a null `m_head`, and `m_tail` of the
destination points to a deleted node. -/
theorem moveAssign_newThrows (hin : Inside s t (.moveAssign this other))
    (hclear : Cleared s (.moveAssign this other))
    (h : NewThrows (.moveAssign this other) s s') :
    (∃ O', s'.queues other = some O' ∧ O'.mHead = none) ∧
      ∃ D' tl, s'.queues this = some D' ∧ D'.mTail = some tl ∧ s'.heap tl = none := by
  cases h with
  | @moveAssign _ _ _ D O heap' hD hO hdel =>
    have hne : other ≠ this := by
      have hnd : [this, other].Nodup := hin.1
      rintro rfl
      simp at hnd
    obtain ⟨hh, D₁, tl, hD₁, -, htl, -⟩ := hin.2 this (by simp [Section.queues])
    obtain rfl := Option.some.inj (hD.symm.trans hD₁)
    rw [hclear D hD, htl] at hdel
    refine ⟨⟨{ O with mHeadMut := none, mTailMut := none, mHead := none }, ?_, rfl⟩, _, tl,
      Shared.setQueue_self .., htl, ?_⟩
    · simp [Function.update_of_ne hne]
    · exact hdel.freed (.nil tl) tl (by simp)

omit [DecidableEq Q] in
theorem not_isRepresented_of_null {Q' : Queue Tid} (hnull : Q'.mHead = none) :
    ¬IsRepresented s Q' := by
  rintro ⟨hd, tl, xs, nd, hhd, -⟩
  rw [hnull] at hhd
  cases hhd

omit [DecidableEq Q] in
theorem not_isRepresented_of_dangling {Q' : Queue Tid} {tl : Addr} (htl : Q'.mTail = some tl)
    (hdead : s.heap tl = none) : ¬IsRepresented s Q' := by
  rintro ⟨hd, tl', xs, nd, -, htl', -, -, hnd, -⟩
  obtain rfl := Option.some.inj (htl.symm.trans htl')
  rw [hdead] at hnd
  cases hnd

/-- None of the queue objects of a move that exist is represented. -/
def NoneRepresented (m : Section Q) (s : Shared Tid Q T) : Prop :=
  ∀ q ∈ m.objects, ∀ Q', s.queues q = some Q' → ¬IsRepresented s Q'

omit [DecidableEq Q] in
/-- INTERNAL: the source exists, so the move has done harm if it is not represented. -/
theorem NoneRepresented.not_noHarm {m : Section Q} {O' : Queue Tid} (h : NoneRepresented m s')
    (hm : other ∈ m.objects) (hO : s'.queues other = some O') : ¬NoHarm m other s s' :=
  fun hno => h other hm O' hO (hno.represented other hm O' hO)

/-- After the move constructor has thrown, no object is represented and no element is left. -/
theorem moveConstruct_harm (hI : SharedInv own s)
    (h : NewThrows (.moveConstruct this other) s s') :
    ¬NoHarm (.moveConstruct this other) other s s' ∧
      NoneRepresented (.moveConstruct this other) s' ∧
      ∀ v, ¬HeldBy s' (Section.moveConstruct this other).objects v := by
  obtain ⟨hgone, O, O', hd, tl, xs, -, -, hO', hnull, -⟩ := moveConstruct_newThrows hI h
  have hobj : ∀ q ∈ (Section.moveConstruct this other).objects, ∀ Q', s'.queues q = some Q' →
      Q'.mHead = none := by
    intro q hq Q' hQ'
    rcases List.mem_pair.mp hq with rfl | rfl
    · rw [hgone] at hQ'
      cases hQ'
    · obtain rfl := Option.some.inj (hO'.symm.trans hQ')
      exact hnull
  have hnone : NoneRepresented (.moveConstruct this other) s' := fun q hq Q' hQ' =>
    not_isRepresented_of_null (hobj q hq Q' hQ')
  refine ⟨hnone.not_noHarm (by simp [Section.objects]) hO', hnone, ?_⟩
  rintro v ⟨q, hq, Q', hd', xs', a, hQ', hhd, -⟩
  rw [hobj q hq Q' hQ'] at hhd
  cases hhd

/-- After the move assignment has thrown, neither object is represented. -/
theorem moveAssign_harm (hin : Inside s t (.moveAssign this other))
    (hclear : Cleared s (.moveAssign this other))
    (h : NewThrows (.moveAssign this other) s s') :
    ¬NoHarm (.moveAssign this other) other s s' ∧
      NoneRepresented (.moveAssign this other) s' := by
  obtain ⟨⟨O', hO', hnull⟩, D', tl, hD', htl, hdead⟩ := moveAssign_newThrows hin hclear h
  have hnone : NoneRepresented (.moveAssign this other) s' := by
    intro q hq Q' hQ'
    rcases List.mem_pair.mp hq with rfl | rfl
    · obtain rfl := Option.some.inj (hD'.symm.trans hQ')
      exact not_isRepresented_of_dangling htl hdead
    · obtain rfl := Option.some.inj (hO'.symm.trans hQ')
      exact not_isRepresented_of_null hnull
  exact ⟨hnone.not_noHarm (by simp [Section.objects]) hO', hnone⟩

end Throwing

/-! ## The moves are never harmless -/

section Runs

variable [DecidableEq Tid] [DecidableEq Q] {c : Config Tid (Pc Q T) (Shared Tid Q T)}
  {tr : List (Tid × Lab Q T)} {t : Tid} {this other : Q}

/-- **An allocation failure in a move always does harm.** In every reachable configuration,
whatever the two queues hold, if `new node` throws in the move constructor or the move
assignment that thread `t` is about to carry out, then no queue object that exists afterwards
is represented; after the move constructor all elements of the source are lost as well. -/
theorem move_bad_alloc (h : Run QueueStep anyStep (noQueues Tid Q T) tr c) :
    (c.pc t = .moveQueue (.moveConstruct this other) → c.sh.queues this = none →
      (∃ s', NewThrows (.moveConstruct this other) c.sh s') ∧
      ∀ s', NewThrows (.moveConstruct this other) c.sh s' →
        ¬NoHarm (.moveConstruct this other) other c.sh s' ∧
        NoneRepresented (.moveConstruct this other) s' ∧
        ∀ v, ¬HeldBy s' (Section.moveConstruct this other).objects v) ∧
    (c.pc t = .moveQueue (.moveAssign this other) →
      (∃ s', NewThrows (.moveAssign this other) c.sh s') ∧
      ∀ s', NewThrows (.moveAssign this other) c.sh s' →
        ¬NoHarm (.moveAssign this other) other c.sh s' ∧
        NoneRepresented (.moveAssign this other) s') := by
  obtain ⟨own, hI, hA⟩ := outline_run outline_noQueues locksExact_noQueues h
  change SharedInv own c.sh at hI
  have hat : ∀ m, c.pc t = .moveQueue m → Inside c.sh t m ∧ Cleared c.sh m := by
    intro m hpc
    have hthread := hA t
    rw [hpc] at hthread
    exact hthread
  refine ⟨fun hpc hthis => ?_, fun hpc => ?_⟩
  · obtain ⟨hin, -⟩ := hat _ hpc
    exact ⟨exists_moveConstruct_newThrows hI hin hthis, fun s' hs' => moveConstruct_harm hI hs'⟩
  · obtain ⟨hin, hclear⟩ := hat _ hpc
    exact ⟨exists_moveAssign_newThrows hin hclear, fun s' hs' => moveAssign_harm hin hclear hs'⟩

end Runs

/-- A queue with the element 7 is moved into a new one, and `new node` throws: the source is
left with a null `m_head`, and the element is gone. -/
theorem move_construct_bad_alloc :
    ∃ (c : Config Unit (Pc Bool ℕ) (Shared Unit Bool ℕ)) (tr : List (Unit × Lab Bool ℕ))
      (s' : Shared Unit Bool ℕ),
      Run QueueStep anyStep (noQueues Unit Bool ℕ) tr c ∧
        c.pc () = .moveQueue (.moveConstruct true false) ∧ Contents c.sh false [7] ∧
        NewThrows (.moveConstruct true false) c.sh s' ∧
        ¬NoHarm (.moveConstruct true false) false c.sh s' ∧
        ¬HeldBy s' (Section.moveConstruct true false).objects 7 := by
  have h₁ := (Run.nil : Run QueueStep anyStep (noQueues Unit Bool ℕ) [] _).snoc
    () trivial (.client (.call _ (.create false)))
  have h₂ := h₁.snoc () trivial (.client (.create (a := 0) rfl rfl))
  have h₃ := h₂.snoc () trivial (.client (.ret _ _))
  have h₄ := h₃.snoc () trivial (.client (.call _ (.push false 7)))
  have h₅ := h₄.snoc () trivial (.push (.makeNode (a := 1) rfl))
  have h₆ := h₅.snoc () trivial (.push (.lockTail rfl rfl))
  have h₇ := h₆.snoc () trivial (.push (.constructData rfl rfl rfl))
  have h₈ := h₇.snoc () trivial (.push (.setInitialized rfl rfl rfl))
  have h₉ := h₈.snoc () trivial (.push (.linkNext rfl rfl rfl))
  have h₁₀ := h₉.snoc () trivial (.push (.moveTail rfl rfl rfl))
  have h₁₁ := h₁₀.snoc () trivial (.push (.unlockTail rfl))
  have h₁₂ := h₁₁.snoc () trivial (.client (.ret _ _))
  have h₁₃ := h₁₂.snoc () trivial (.client (.call _ (.locked (.moveConstruct true false))))
  have h₁₄ := h₁₃.snoc () trivial (.locked (.acquireHead (q := false) (by decide) rfl rfl))
  have h₁₅ := h₁₄.snoc () trivial (.locked (.acquireTail (q := false) (by decide) rfl rfl))
  have h₁₆ := h₁₅.snoc () trivial (.locked (.enter ⟨by decide, fun q hq => by
    obtain rfl := List.mem_singleton.mp hq
    exact ⟨_, rfl, rfl, rfl⟩⟩))
  obtain ⟨own, hI, hA⟩ := outline_run outline_noQueues locksExact_noQueues h₁₆
  obtain ⟨hin, -⟩ : Inside _ () (.moveConstruct true false) ∧ _ := hA ()
  obtain ⟨s', hthrow⟩ := exists_moveConstruct_newThrows hI hin rfl
  obtain ⟨hharm, -, hlost⟩ := moveConstruct_harm hI hthrow
  exact ⟨_, _, s', h₁₆, rfl, ⟨_, 0, 1, [0], ⟨rfl, rfl, rfl, .cons rfl (.nil 1), by decide⟩,
    .cons ⟨_, rfl, rfl⟩ .nil⟩, hthrow, hharm, hlost 7⟩

/-- An empty queue is move-assigned to another one, and `new node` throws. -/
theorem move_bad_alloc_assign :
    ∃ (c : Config Unit (Pc Bool ℕ) (Shared Unit Bool ℕ)) (tr : List (Unit × Lab Bool ℕ))
      (s' : Shared Unit Bool ℕ),
      Run QueueStep anyStep (noQueues Unit Bool ℕ) tr c ∧
        c.pc () = .moveQueue (.moveAssign true false) ∧
        NewThrows (.moveAssign true false) c.sh s' ∧
        ¬NoHarm (.moveAssign true false) false c.sh s' := by
  have h₁ := (Run.nil : Run QueueStep anyStep (noQueues Unit Bool ℕ) [] _).snoc
    () trivial (.client (.call _ (.create false)))
  have h₂ := h₁.snoc () trivial (.client (.create (a := 0) rfl rfl))
  have h₃ := h₂.snoc () trivial (.client (.ret _ _))
  have h₄ := h₃.snoc () trivial (.client (.call _ (.create true)))
  have h₅ := h₄.snoc () trivial (.client (.create (q := true) (a := 1) (by simp [noQueues]) rfl))
  have h₆ := h₅.snoc () trivial (.client (.ret _ _))
  have h₇ := h₆.snoc () trivial (.client (.call _ (.locked (.moveAssign true false))))
  have h₈ := h₇.snoc () trivial (.locked (.acquireHead (q := true) (by decide) rfl rfl))
  have h₉ := h₈.snoc () trivial (.locked (.acquireTail (q := true) (by decide) rfl rfl))
  have h₁₀ := h₉.snoc () trivial (.locked (.acquireHead (q := false) (by decide) rfl rfl))
  have h₁₁ := h₁₀.snoc () trivial (.locked (.acquireTail (q := false) (by decide) rfl rfl))
  have h₁₂ := h₁₁.snoc () trivial (.locked (.enter ⟨by decide, fun q _ => by
    cases q <;> exact ⟨_, rfl, rfl, rfl⟩⟩))
  have h₁₃ := h₁₂.snoc () trivial (.locked (.cleared rfl rfl))
  obtain ⟨⟨s', hthrow⟩, hall⟩ := (@move_bad_alloc _ _ _ _ _ _ _ () true false h₁₃).2 rfl
  exact ⟨_, _, s', h₁₃, rfl, hthrow, (hall s' hthrow).1⟩

end UbuntuProjects.TsQueue
