import UbuntuProjects.Analysis.TsQueueNode
import UbuntuProjects.Analysis.TsQueueLinearizable
import UbuntuProjects.Analysis.TsQueueRepresentation

/-!
# `ts_queue` with elements of any size

The steps of the queue with elements of at most 8 bytes are those of `QueueStep`
(`overlapStep_iff`), and its runs have their properties (`queue_linearizable`,
`queue_representation`). With a larger element they fail: a pop returns what nobody has pushed
(`pop_returns_link`), and pushing such an element to another queue deletes the last node of the
first one (`push_deletes_tail`).
-/

set_option autoImplicit false

namespace UbuntuProjects.TsQueue

open Concurrency
open Memory
open Memory.Storable (size align bytes ofBytes length_bytes ofBytes_bytes)

variable {Tid Q T : Type} [Storable T]

/-! ## Steps -/

section Steps

variable {own : Owners Tid Q} {t : Tid} {s s' : Shared Tid Q T} {p p' : Pc Q T} {l : Lab Q T}

/-- INTERNAL: what the loop of `push_range` writes to two nodes of its own. -/
theorem links_copyRange (hsize : size T ≤ 8) {tailSub a : Addr} {x : T}
    {heap' : Addr → Option (Node T)} (hfresh : s.heap tailSub = some .fresh)
    (ha : s.heap a = none) :
    Links ((s.setNode tailSub (Node.fresh.construct x).setInitialized).setNode a .fresh).heap
        tailSub a heap' ↔
      heap' = ((s.setNode tailSub ⟨some x, some a, true⟩).setNode a .fresh).heap := by
  have hne : a ≠ tailSub := by
    rintro rfl
    rw [hfresh] at ha
    cases ha
  have hfilled : (Node.fresh.construct x).setInitialized = ⟨some x, none, true⟩ := by
    rw [Node.setInitialized_of_le hsize, Node.construct_of_le hsize]
    rfl
  rw [hfilled, links_new hsize (Function.update_self ..) rfl
    ((Function.update_of_ne hne ..).trans ha), setNode_setNode]

variable [DecidableEq Q]

theorem overlapPush_iff (hsize : size T ≤ 8) (has : assertion own t p s) :
    OverlapPush t p s p' s' ↔ PushStep t p s p' s' := by
  constructor
  · intro h
    cases h with
    | copyRange hnd ha hlinks =>
      obtain ⟨ys, hsub⟩ := has
      obtain rfl := Option.some.inj (hnd.symm.trans hsub.fresh)
      obtain rfl := (links_copyRange hsize hnd ha).mp hlinks
      exact .copyRange hnd ha
    | constructData hQ htl hnd =>
      rw [Node.construct_of_le hsize]
      exact .constructData hQ htl hnd
    | setInitialized hQ htl hnd =>
      rw [Node.setInitialized_of_le hsize]
      exact .setInitialized hQ htl hnd
    | linkNext hQ htl hlinks =>
      obtain ⟨v, htail, -⟩ := has
      have hnd := (htail.of_queue hQ).2 _ htl
      obtain rfl := (links_iff hnd rfl).mp hlinks
      rw [Node.link_of_le hsize]
      exact .linkNext hQ htl hnd
    | other _ h => exact h
  · intro h
    cases h with
    | copyRange hnd ha =>
      obtain ⟨ys, hsub⟩ := has
      obtain rfl := Option.some.inj (hnd.symm.trans hsub.fresh)
      exact .copyRange hnd ha ((links_copyRange hsize hnd ha).mpr rfl)
    | constructData hQ htl hnd =>
      rw [← Node.construct_of_le hsize]
      exact .constructData hQ htl hnd
    | setInitialized hQ htl hnd =>
      rw [← Node.setInitialized_of_le hsize]
      exact .setInitialized hQ htl hnd
    | linkNext hQ htl hnd =>
      obtain ⟨v, htail, -⟩ := has
      obtain rfl := Option.some.inj (hnd.symm.trans ((htail.of_queue hQ).2 _ htl))
      rw [← Node.link_of_le hsize]
      exact .linkNext hQ htl ((links_iff hnd rfl).mpr rfl)
    | makeNode ha => exact .other id (.makeNode ha)
    | makeSubNil => exact .other id (.makeSubNil ..)
    | makeSub ha => exact .other id (.makeSub ha)
    | copyRangeNil => exact .other id (.copyRangeNil ..)
    | lockTail hQ hm => exact .other id (.lockTail hQ hm)
    | moveTail hQ htl hnd => exact .other id (.moveTail hQ htl hnd)
    | moveTailRange hQ => exact .other id (.moveTailRange hQ)
    | unlockTail hQ => exact .other id (.unlockTail hQ)

theorem overlapPop_iff [DecidableEq Tid] (hsize : size T ≤ 8) :
    OverlapPop t p s p' s' ↔ PopStep t p s p' s' := by
  have hback : ∀ {h : Addr} {nd : Node T} (w : T), s.heap h = some nd →
      s.setNode h (nd.moveFrom w) = s := by
    intro h nd w hnd
    rw [nd.moveFrom_of_le hsize, setNode_self hnd]
  constructor
  · intro h
    cases h with
    | popData w hQ hhd hnd hv =>
      rw [hback w hnd]
      exact .popData hQ hhd hnd hv
    | other _ h => exact h
  · intro h
    by_cases hp : p.writesNode
    · cases h with
      | @popData _ q k pt count out _ _ _ v hQ hhd hnd hv =>
        have hstep : OverlapPop t (.popData q k pt count out) s
            (.popNode q k pt count (out ++ [v])) _ := .popData v hQ hhd hnd hv
        rwa [hback v hnd] at hstep
      | _ => exact hp.elim
    · exact .other hp h

omit [Storable T] in
theorem overlapLocked_iff (has : assertion own t p s) :
    OverlapLocked t p s p' s' ↔ LockedStep t p s p' s' := by
  have hdummy : ∀ {this other : Q} {D : Queue Tid}, p = .moveQueue (.moveAssign this other) →
      s.queues this = some D → ∃ d, D.mHead = some d ∧ s.heap d = some .fresh := by
    rintro this other D rfl hD
    obtain ⟨hin, hcleared⟩ := has
    obtain ⟨-, htail⟩ := hin.2 this (List.mem_cons_self ..)
    obtain ⟨D', tl, hD', hm, htl, hfresh⟩ := id htail
    obtain rfl := Option.some.inj (hD.symm.trans hD')
    exact ⟨tl, (hcleared D hD).trans htl, hfresh⟩
  constructor
  · intro h
    cases h with
    | moveAssign hD hO hdel ha =>
      obtain ⟨d, hhd, hfresh⟩ := hdummy rfl hD
      rw [hhd, deletes_fresh_iff hfresh] at hdel
      subst hdel
      exact .moveAssign hD hO hhd ha
    | other _ h => exact h
  · intro h
    by_cases hp : p.writesNode
    · cases h with
      | moveAssign hD hO hhd ha =>
        obtain ⟨d, hhd', hfresh⟩ := hdummy rfl hD
        obtain rfl := Option.some.inj (hhd.symm.trans hhd')
        exact .moveAssign hD hO (hhd.symm ▸ (deletes_fresh_iff hfresh).mpr rfl) ha
      | _ => exact hp.elim
    · exact .other hp h

/-- With small elements the steps of a thread are those of the queue whose nodes keep their
members apart. -/
theorem overlapStep_iff [DecidableEq Tid] (hsize : size T ≤ 8) (has : assertion own t p s) :
    OverlapStep t p s l p' s' ↔ QueueStep t p s l p' s' := by
  constructor
  · intro h
    cases h with
    | client h => exact .client h
    | push h => exact .push ((overlapPush_iff hsize has).mp h)
    | pop h => exact .pop ((overlapPop_iff hsize).mp h)
    | locked h => exact .locked ((overlapLocked_iff has).mp h)
  · intro h
    cases h with
    | client h => exact .client h
    | push h => exact .push ((overlapPush_iff hsize has).mpr h)
    | pop h => exact .pop ((overlapPop_iff hsize).mpr h)
    | locked h => exact .locked ((overlapLocked_iff has).mpr h)

end Steps

/-! ## Runs -/

section Runs

variable [DecidableEq Tid]

/-- With small elements the runs are those of the queue whose nodes keep their members
apart. -/
theorem overlapRun_iff [DecidableEq Q] (hsize : size T ≤ 8)
    {G : Config Tid (Pc Q T) (Shared Tid Q T) → Tid × Lab Q T → Prop}
    {c₀ c : Config Tid (Pc Q T) (Shared Tid Q T)} {tr : List (Tid × Lab Q T)}
    (h₀ : (outline Tid Q T).Holds c₀) (hl₀ : LocksExact c₀) :
    Run OverlapStep G c₀ tr c ↔ Run QueueStep G c₀ tr c := by
  have hto : ∀ {tr c}, Run OverlapStep G c₀ tr c → Run QueueStep G c₀ tr c := by
    intro tr c h
    refine h.replace fun tr c t l p' s' hr hs => ?_
    obtain ⟨own, -, hloc⟩ := outline_run h₀ hl₀ hr
    exact (overlapStep_iff hsize (hloc t)).mp hs
  refine ⟨hto, fun h => h.replace fun tr c t l p' s' hr hs => ?_⟩
  obtain ⟨own, -, hloc⟩ := outline_run h₀ hl₀ (hto hr)
  exact (overlapStep_iff hsize (hloc t)).mpr hs

/-- Every run of pushes, pops, `clear` and `empty` on a queue just constructed, with elements
of at most 8 bytes and ranges that can be read twice, is linearizable to the sequence. -/
theorem queue_linearizable (hsize : size T ≤ 8) {c : Config Tid (Pc Unit T) (Shared Tid Unit T)}
    {tr : List (Tid × Lab Unit T)} (h : Run OverlapStep FifoOnly (oneQueue Tid T) tr c) :
    Linearizable (fifo T) (observed id tr) :=
  linearizable_run ((overlapRun_iff hsize outline_oneQueue locksExact_oneQueue).mp h)

/-- A push and a pop that overlap: the pop returns the element. -/
theorem queue_linearizable_overlap :
    ∃ (c : Config Bool (Pc Unit UInt64) (Shared Bool Unit UInt64)) (tr : List (Bool × Lab Unit UInt64)),
      Run OverlapStep FifoOnly (oneQueue Bool UInt64) tr c ∧
        observed id tr = [(true, .call (.pop ())), (false, .call (.push () 7)),
          (true, .ret (.status .ready (some 7)))] ∧ Linearizable (fifo UInt64) (observed id tr) := by
  have quiet : ∀ {c : Config Bool (Pc Unit UInt64) (Shared Bool Unit UInt64)} {t : Bool},
      FifoOnly c (t, none) := fun _ h => by cases h
  have h₁ := (Run.nil : Run QueueStep FifoOnly (oneQueue Bool UInt64) [] _).snoc
    true (fun op h => by cases h; exact Wait.noConfusion) (.client (.call _ (.pop ())))
  have h₂ := h₁.snoc true quiet (.pop (.lockHead rfl rfl))
  have k₁ := h₂.snoc false (fun op h => by cases h; trivial) (.client (.call _ (.push () 7)))
  have k₂ := k₁.snoc false quiet (.push (.makeNode (a := 1) rfl))
  have k₃ := k₂.snoc false quiet (.push (.lockTail rfl rfl))
  have k₄ := k₃.snoc false quiet (.push (.constructData rfl rfl rfl))
  have k₅ := k₄.snoc false quiet (.push (.setInitialized rfl rfl rfl))
  have k₆ := k₅.snoc false quiet (.push (.linkNext rfl rfl rfl))
  have k₇ := k₆.snoc false quiet (.push (.moveTail rfl rfl rfl))
  have k₈ := k₇.snoc false quiet (.push (.unlockTail rfl))
  have h₃ := k₈.snoc true quiet (.pop (.lockTailMut rfl rfl))
  have h₄ := h₃.snoc true quiet (.pop (.readTail rfl rfl))
  have h₅ := h₄.snoc true quiet (.pop (.unlockTailMut rfl))
  have h₆ := h₅.snoc true quiet (.pop (.testEmpty rfl))
  have h₇ := h₆.snoc true quiet (.pop (.popData rfl rfl rfl rfl))
  have h₈ := h₇.snoc true quiet (.pop (.popNode rfl rfl rfl))
  have h₉ := h₈.snoc true quiet (.pop (.unlockHead rfl))
  have h₁₀ := h₉.snoc true (fun _ h => by cases h) (.client (.ret _ _))
  have hsize : size UInt64 ≤ 8 := Nat.le_refl 8
  have h := (overlapRun_iff hsize outline_oneQueue locksExact_oneQueue).mpr h₁₀
  exact ⟨_, _, h, rfl, queue_linearizable hsize h⟩

omit [Storable T] [DecidableEq Tid] in
theorem TailIsSafe.mono {push push' : Tid → Pc Q T → Shared Tid Q T → Pc Q T → Shared Tid Q T → Prop}
    {c : Config Tid (Pc Q T) (Shared Tid Q T)} {t : Tid} {q : Q} {pt : Addr}
    (hpush : ∀ u p' s', push' u (c.pc u) c.sh p' s' → push u (c.pc u) c.sh p' s')
    (h : TailIsSafe push c t q pt) : TailIsSafe push' c t q pt := by
  obtain ⟨Q', hd, tl, front, back, hQ, hm, hhd, htl, hfront, hback, hnodup, hlive, hpop⟩ := h
  refine ⟨Q', hd, tl, front, back, hQ, hm, hhd, htl, hfront, hback, hnodup, hlive, fun a ha => ?_⟩
  obtain ⟨hmem, hinit, hnobody⟩ := hpop a ha
  exact ⟨hmem, hinit, fun u => ⟨(hnobody u).1, fun p' s' hs =>
    (hnobody u).2 p' s' (hpush u p' s' hs)⟩⟩

/-- In every reachable state of any interleaving of the operations on queues of elements of at
most 8 bytes: a queue in whose critical sections no thread is is represented, and the tail that
a popper has read is safe. -/
theorem queue_representation [DecidableEq Q] (hsize : size T ≤ 8)
    {c : Config Tid (Pc Q T) (Shared Tid Q T)} {tr : List (Tid × Lab Q T)}
    (h : Run OverlapStep anyStep (noQueues Tid Q T) tr c) :
    (∀ q Q', c.sh.queues q = some Q' → (∀ t, ¬(c.pc t).critical q) → IsRepresented c.sh Q') ∧
      ∀ t q pt, (c.pc t).possibleTail = some (q, pt) → TailIsSafe OverlapPush c t q pt := by
  have hrun := (overlapRun_iff hsize outline_noQueues locksExact_noQueues).mp h
  obtain ⟨hrep, hsafe⟩ := representation_run hrun
  obtain ⟨own, -, hloc⟩ := outline_run outline_noQueues locksExact_noQueues hrun
  exact ⟨hrep, fun t q pt hpt => (hsafe t q pt hpt).mono fun u p' s' hs =>
    (overlapPush_iff hsize (hloc u)).mp hs⟩

/-- One thread constructs a queue, pushes an element and is about to pop it. -/
theorem queue_representation_popping :
    ∃ (c : Config Unit (Pc Unit UInt64) (Shared Unit Unit UInt64)) (tr : List (Unit × Lab Unit UInt64)),
      Run OverlapStep anyStep (noQueues Unit Unit UInt64) tr c ∧
        (c.pc ()).popped c.sh = some 0 ∧ TailIsSafe OverlapPush c () () 1 := by
  have h₁ := (Run.nil : Run QueueStep anyStep (noQueues Unit Unit UInt64) [] _).snoc
    () trivial (.client (.call _ (.create ())))
  have h₂ := h₁.snoc () trivial (.client (.create (a := 0) rfl rfl))
  have h₃ := h₂.snoc () trivial (.client (.ret _ _))
  have h₄ := h₃.snoc () trivial (.client (.call _ (.push () 7)))
  have h₅ := h₄.snoc () trivial (.push (.makeNode (a := 1) rfl))
  have h₆ := h₅.snoc () trivial (.push (.lockTail rfl rfl))
  have h₇ := h₆.snoc () trivial (.push (.constructData rfl rfl rfl))
  have h₈ := h₇.snoc () trivial (.push (.setInitialized rfl rfl rfl))
  have h₉ := h₈.snoc () trivial (.push (.linkNext rfl rfl rfl))
  have h₁₀ := h₉.snoc () trivial (.push (.moveTail rfl rfl rfl))
  have h₁₁ := h₁₀.snoc () trivial (.push (.unlockTail rfl))
  have h₁₂ := h₁₁.snoc () trivial (.client (.ret _ _))
  have h₁₃ := h₁₂.snoc () trivial (.client (.call _ (.pop ())))
  have h₁₄ := h₁₃.snoc () trivial (.pop (.lockHead rfl rfl))
  have h₁₅ := h₁₄.snoc () trivial (.pop (.lockTailMut rfl rfl))
  have h₁₆ := h₁₅.snoc () trivial (.pop (.readTail rfl rfl))
  have h₁₇ := h₁₆.snoc () trivial (.pop (.unlockTailMut rfl))
  have h₁₈ := h₁₇.snoc () trivial (.pop (.testEmpty rfl))
  have hsize : size UInt64 ≤ 8 := Nat.le_refl 8
  have h := (overlapRun_iff hsize outline_noQueues locksExact_noQueues).mpr h₁₈
  exact ⟨_, _, h, rfl, (queue_representation hsize h).2 () () 1 rfl⟩

end Runs

/-! ## Elements that do not fit -/

/-- A pop returns an element that nobody has pushed: linking the node of `(1, 0)` has put the
address of the next node, which is 2, into it. -/
theorem pop_returns_link :
    ∃ (c : Config Unit (Pc Unit LongPair) (Shared Unit Unit LongPair))
      (tr : List (Unit × Lab Unit LongPair)),
      Run OverlapStep FifoOnly (oneQueue Unit LongPair) tr c ∧
        observed id tr = [((), .call (.push () ⟨1, 0⟩)), ((), .ret .unit), ((), .call (.pop ())),
          ((), .ret (.status .ready (some ⟨1, 2⟩)))] ∧
        ¬Linearizable (fifo LongPair) (observed id tr) := by
  have quiet : ∀ {c : Config Unit (Pc Unit LongPair) (Shared Unit Unit LongPair)},
      FifoOnly c ((), none) := fun _ h => by cases h
  have h₁ := (Run.nil : Run OverlapStep FifoOnly (oneQueue Unit LongPair) [] _).snoc
    () (fun op h => by cases h; trivial) (.client (.call _ (.push () ⟨1, 0⟩)))
  have h₂ := h₁.snoc () quiet (.push (.other id (.makeNode (a := 1) rfl)))
  have h₃ := h₂.snoc () quiet (.push (.other id (.lockTail rfl rfl)))
  have h₄ := h₃.snoc () quiet (.push (.constructData rfl rfl rfl))
  have h₅ := h₄.snoc () quiet (.push (.setInitialized rfl rfl rfl))
  have h₆ := h₅.snoc () quiet (.push (.linkNext rfl rfl (.link rfl (.null _))))
  have h₇ := h₆.snoc () quiet (.push (.other id (.moveTail rfl rfl rfl)))
  have h₈ := h₇.snoc () quiet (.push (.other id (.unlockTail rfl)))
  have h₉ := h₈.snoc () (fun op h => by cases h) (.client (.ret _ _))
  have h₁₀ := h₉.snoc () (fun op h => by cases h; exact Wait.noConfusion)
    (.client (.call _ (.pop ())))
  have h₁₁ := h₁₀.snoc () quiet (.pop (.other id (.lockHead rfl rfl)))
  have h₁₂ := h₁₁.snoc () quiet (.pop (.other id (.lockTailMut rfl rfl)))
  have h₁₃ := h₁₂.snoc () quiet (.pop (.other id (.readTail rfl rfl)))
  have h₁₄ := h₁₃.snoc () quiet (.pop (.other id (.unlockTailMut rfl)))
  have h₁₅ := h₁₄.snoc () quiet (.pop (.other id (.testEmpty rfl)))
  have h₁₆ := h₁₅.snoc () quiet (.pop (.popData ⟨1, 2⟩ rfl rfl rfl rfl))
  have h₁₇ := h₁₆.snoc () quiet (.pop (.other id (.popNode rfl rfl rfl)))
  have h₁₈ := h₁₇.snoc () quiet (.pop (.other id (.unlockHead rfl)))
  have h₁₉ := h₁₈.snoc () (fun op h => by cases h) (.client (.ret _ _))
  refine ⟨_, _, h₁₉, rfl, fun hlin => ?_⟩
  change Linearizable (fifo LongPair) [((), .call (.push () ⟨1, 0⟩)), ((), .ret .unit),
    ((), .call (.pop ())), ((), .ret (.status .ready (some ⟨1, 2⟩)))] at hlin
  obtain ⟨t, op, hcall, hpush⟩ := appended_of_linearizable hlin (i := 2) (j := 3)
    ⟨(), .pop (), rfl, by decide, rfl, fun k e hk hk' => by omega⟩ (List.mem_singleton_self _)
  simp only [List.mem_cons, Prod.mk.injEq, Event.call.injEq, reduceCtorEq, and_false, false_or,
    List.not_mem_nil, or_false] at hcall
  rcases hcall with ⟨-, rfl⟩ | ⟨-, rfl⟩
  · exact absurd hpush (by decide)
  · exact absurd hpush List.not_mem_nil

/-- The element that is popped from one queue and pushed to another holds the address of the
last node of the first one: linking the second queue deletes that node. -/
theorem push_deletes_tail :
    ∃ (c : Config Unit (Pc Bool LongPair) (Shared Unit Bool LongPair))
      (tr : List (Unit × Lab Bool LongPair)) (q : Queue Unit),
      Run OverlapStep anyStep (noQueues Unit Bool LongPair) tr c ∧ c.pc () = .idle ∧
        c.sh.queues false = some q ∧ ¬IsRepresented c.sh q := by
  have h₁ := (Run.nil : Run OverlapStep anyStep (noQueues Unit Bool LongPair) [] _).snoc
    () trivial (.client (.call _ (.create false)))
  have h₂ := h₁.snoc () trivial (.client (.create (a := 0) rfl rfl))
  have h₃ := h₂.snoc () trivial (.client (.ret _ _))
  have h₄ := h₃.snoc () trivial (.client (.call _ (.create true)))
  have h₅ := h₄.snoc () trivial (.client (.create (a := 1) rfl rfl))
  have h₆ := h₅.snoc () trivial (.client (.ret _ _))
  -- the element is pushed to the first queue and popped with the address of node 2 in it
  have h₇ := h₆.snoc () trivial (.client (.call _ (.push false ⟨1, 0⟩)))
  have h₈ := h₇.snoc () trivial (.push (.other id (.makeNode (a := 2) rfl)))
  have h₉ := h₈.snoc () trivial (.push (.other id (.lockTail rfl rfl)))
  have h₁₀ := h₉.snoc () trivial (.push (.constructData rfl rfl rfl))
  have h₁₁ := h₁₀.snoc () trivial (.push (.setInitialized rfl rfl rfl))
  have h₁₂ := h₁₁.snoc () trivial (.push (.linkNext rfl rfl (.link rfl (.null _))))
  have h₁₃ := h₁₂.snoc () trivial (.push (.other id (.moveTail rfl rfl rfl)))
  have h₁₄ := h₁₃.snoc () trivial (.push (.other id (.unlockTail rfl)))
  have h₁₅ := h₁₄.snoc () trivial (.client (.ret _ _))
  have h₁₆ := h₁₅.snoc () trivial (.client (.call _ (.pop false)))
  have h₁₇ := h₁₆.snoc () trivial (.pop (.other id (.lockHead rfl rfl)))
  have h₁₈ := h₁₇.snoc () trivial (.pop (.other id (.lockTailMut rfl rfl)))
  have h₁₉ := h₁₈.snoc () trivial (.pop (.other id (.readTail rfl rfl)))
  have h₂₀ := h₁₉.snoc () trivial (.pop (.other id (.unlockTailMut rfl)))
  have h₂₁ := h₂₀.snoc () trivial (.pop (.other id (.testEmpty rfl)))
  have h₂₂ := h₂₁.snoc () trivial (.pop (.popData ⟨1, 3⟩ rfl rfl rfl rfl))
  have h₂₃ := h₂₂.snoc () trivial (.pop (.other id (.popNode rfl rfl rfl)))
  have h₂₄ := h₂₃.snoc () trivial (.pop (.other id (.unlockHead rfl)))
  have h₂₅ := h₂₄.snoc () trivial (.client (.ret _ _))
  -- pushing it to the second queue deletes node 2
  have h₂₆ := h₂₅.snoc () trivial (.client (.call _ (.push true ⟨1, 3⟩)))
  have h₂₇ := h₂₆.snoc () trivial (.push (.other id (.makeNode (a := 3) rfl)))
  have h₂₈ := h₂₇.snoc () trivial (.push (.other id (.lockTail rfl rfl)))
  have h₂₉ := h₂₈.snoc () trivial (.push (.constructData rfl rfl rfl))
  have h₃₀ := h₂₉.snoc () trivial (.push (.setInitialized rfl rfl rfl))
  have h₃₁ := h₃₀.snoc () trivial
    (.push (.linkNext rfl rfl (.link rfl (.node (a := 2) rfl (.null _)))))
  have h₃₂ := h₃₁.snoc () trivial (.push (.other id (.moveTail rfl rfl rfl)))
  have h₃₃ := h₃₂.snoc () trivial (.push (.other id (.unlockTail rfl)))
  have h₃₄ := h₃₃.snoc () trivial (.client (.ret _ _))
  refine ⟨_, _, _, h₃₄, rfl, rfl, ?_⟩
  rintro ⟨hd, tl, xs, nd, -, htl, -, -, hnd, -⟩
  obtain rfl : 2 = tl := Option.some.inj htl
  cases hnd

end UbuntuProjects.TsQueue
