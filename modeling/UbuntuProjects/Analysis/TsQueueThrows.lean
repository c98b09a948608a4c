import UbuntuProjects.Model.TsQueueThrows
import UbuntuProjects.Analysis.TsQueueNode

/-!
# `ts_queue`: pushes that throw

Until it links its nodes to the queue, a push writes nothing that was there before the call
but `m_tail_mut`: the nodes it has made are kept alive by its local `unique_ptr` (`Keeps`),
and the objects alive are the elements in these nodes and the parameters of
`construct_data` (`Holds`). No statement after the element was constructed in the last node
of the queue can throw. So the destructors that an exception runs lead back to the state
before the call, unless a constructor that throws has written over the other members of the
last node, which an element of more than 8 bytes reaches (`push_all_or_nothing`).
-/

set_option autoImplicit false

namespace UbuntuProjects.TsQueue

open Memory (Life Lifetimes Storable write write_of_lt ofLittleEndian_eq_zero)
open Memory.Storable (size)
open Relation (ReflTransGen)

variable {Tid Q T : Type}

/-! ## The nodes of the call -/

/-- The nodes that an owning pointer keeps alive, each with its flag `initialized`. -/
def Keeps (heap : Addr → Option (Node T)) : Option Addr → List (Addr × Bool) → Prop
  | none, [] => True
  | some a, x :: xs =>
    x.1 = a ∧ ∃ nd, heap a = some nd ∧ nd.initialized = x.2 ∧ Keeps heap nd.mNext xs
  | _, _ => False

/-- The elements in these nodes. -/
def elements (xs : List (Addr × Bool)) : List Obj :=
  (xs.filter Prod.snd).map fun x => .element x.1

section Nodes

variable {heap heap' : Addr → Option (Node T)} {p : Option Addr} {xs ys : List (Addr × Bool)}
  {log : List (Life Obj)} {a tl : Addr} {b b' : Bool}

/-- INTERNAL: writing the last node, and perhaps appending others. -/
theorem Keeps.replace_last (h : Keeps heap p (xs ++ [(tl, b)]))
    (hsame : ∀ a ∈ xs.map Prod.fst, heap' a = heap a)
    (hlast : ∃ nd, heap' tl = some nd ∧ nd.initialized = b' ∧ Keeps heap' nd.mNext ys) :
    Keeps heap' p (xs ++ (tl, b') :: ys) := by
  induction xs generalizing p with
  | nil =>
    cases p with
    | none => exact h.elim
    | some a =>
      obtain ⟨rfl, -⟩ := h
      exact ⟨rfl, hlast⟩
  | cons x xs ih =>
    cases p with
    | none => exact h.elim
    | some a =>
      obtain ⟨rfl, nd, hnd, hflag, hrest⟩ := h
      refine ⟨rfl, nd, ?_, hflag, ih hrest fun a ha => hsame a (List.mem_cons_of_mem _ ha)⟩
      rw [hsame x.1 (List.mem_cons_self ..)]
      exact hnd

/-- INTERNAL: the nodes are alive. -/
theorem Keeps.alive (h : Keeps heap p xs) : ∀ a ∈ xs.map Prod.fst, ∃ nd, heap a = some nd := by
  induction xs generalizing p with
  | nil => exact fun a ha => absurd ha List.not_mem_nil
  | cons x xs ih =>
    cases p with
    | none => exact h.elim
    | some c =>
      obtain ⟨rfl, nd, hnd, -, hrest⟩ := h
      intro a ha
      rcases List.mem_cons.mp ha with rfl | ha
      · exact ⟨nd, hnd⟩
      · exact ih hrest a ha

/-- INTERNAL: the last node is alive and has no successor. -/
theorem Keeps.last (h : Keeps heap p (xs ++ [(tl, b)])) :
    ∃ nd, heap tl = some nd ∧ nd.initialized = b ∧ nd.mNext = none := by
  induction xs generalizing p with
  | nil =>
    cases p with
    | none => exact h.elim
    | some a =>
      obtain ⟨rfl, nd, hnd, hflag, hrest⟩ := h
      refine ⟨nd, hnd, hflag, ?_⟩
      cases hnext : nd.mNext with
      | none => rfl
      | some c =>
        rw [hnext] at hrest
        exact hrest.elim
  | cons x xs ih =>
    cases p with
    | none => exact h.elim
    | some a =>
      obtain ⟨-, nd, -, -, hrest⟩ := h
      exact ih hrest

/-- INTERNAL: the destructor of the owning pointer can run. -/
theorem Keeps.destroys (h : Keeps heap p xs) : ∃ heap' log, Destroys heap p heap' log := by
  induction xs generalizing p with
  | nil =>
    cases p with
    | none => exact ⟨heap, [], .null heap⟩
    | some a => exact h.elim
  | cons x xs ih =>
    cases p with
    | none => exact h.elim
    | some a =>
      obtain ⟨-, nd, hnd, -, hrest⟩ := h
      obtain ⟨heap', log, hd⟩ := ih hrest
      exact ⟨_, _, .node hnd hd⟩

/-- INTERNAL: it deletes the nodes and destroys the elements in them. -/
theorem Destroys.spec (hd : Destroys heap p heap' log) (h : Keeps heap p xs) :
    (∀ a ∈ xs.map Prod.fst, heap' a = none) ∧
      (∀ a ∉ xs.map Prod.fst, heap' a = heap a) ∧ log = (elements xs).map .ends := by
  induction hd generalizing xs with
  | null =>
    cases xs with
    | nil => exact ⟨fun a ha => absurd ha List.not_mem_nil, fun _ _ => rfl, rfl⟩
    | cons x xs => exact h.elim
  | @node heap' a nd log hnd _ ih =>
    cases xs with
    | nil => exact h.elim
    | cons x xs =>
      obtain ⟨rfl, nd', hnd', hflag, hrest⟩ := h
      obtain rfl : nd = nd' := Option.some.inj (hnd.symm.trans hnd')
      obtain ⟨hdead, hother, rfl⟩ := ih hrest
      refine ⟨fun a ha => ?_, fun a ha => ?_, ?_⟩
      · by_cases hax : a = x.1
        · rw [hax, Function.update_self]
        · rw [Function.update_of_ne hax]
          exact hdead a ((List.mem_cons.mp ha).resolve_left hax)
      · rw [List.map_cons, List.mem_cons, not_or] at ha
        rw [Function.update_of_ne ha.1]
        exact hother a ha.2
      · rw [hflag]
        unfold elements
        cases hx : x.2 with
        | true => rw [List.filter_cons_of_pos hx]; rfl
        | false => rw [List.filter_cons_of_neg (by simp [hx])]; rfl

/-- Destroying with a record is destroying. -/
theorem Destroys.deletes (hd : Destroys heap p heap' log) : Deletes heap p heap' := by
  induction hd with
  | null => exact .null heap
  | node hnd _ ih => exact .node hnd ih

end Nodes

/-! ## What a push holds -/

/-- What thread `t` has done to the state `sh` before its push: it has made the nodes `xs`
and owns them through `owned`, owns the mutex `m_tail_mut` of `q` if `locked`, and the
parameters `args` and the elements in the nodes are the objects alive. -/
structure Holds (t : Tid) [DecidableEq Q] (q : Q) (sh : Shared Tid Q T) (locked : Bool)
    (owned : Option Addr) (xs : List (Addr × Bool)) (args : List ℕ) (s : PushState Tid Q T) :
    Prop where
  other : ∀ a ∉ xs.map Prod.fst, s.sh.heap a = sh.heap a
  new : ∀ a ∈ xs.map Prod.fst, sh.heap a = none
  nodup : (xs.map Prod.fst).Nodup
  keeps : Keeps s.sh.heap owned xs
  unlocked : locked = false → s.sh.queues = sh.queues
  mutex : locked = true → ∃ Q', sh.queues q = some Q' ∧ Q'.mTailMut = none ∧
    s.sh.queues = Function.update sh.queues q (some { Q' with mTailMut := some t })
  lives : Lifetimes s.log (args.map .arg ++ elements xs)
  counted : ∀ i, .begins (.arg i) ∈ s.log → i < s.args
  begun : ∀ a, .begins (.element a) ∈ s.log → (a, true) ∈ xs

section Holding

variable [DecidableEq Q] {t : Tid} {q : Q} {sh : Shared Tid Q T} {locked : Bool}
  {owned : Option Addr} {xs : List (Addr × Bool)} {args : List ℕ} {s : PushState Tid Q T}
  {a tl i : ℕ} {nd nd' : Node T}

/-- INTERNAL: before the first statement. -/
theorem Holds.start (t : Tid) (q : Q) (sh : Shared Tid Q T) :
    Holds t q sh false none [] [] (.start sh) where
  other _ _ := rfl
  new a ha := absurd ha List.not_mem_nil
  nodup := List.nodup_nil
  keeps := trivial
  unlocked _ := rfl
  mutex h := absurd h (by decide)
  lives := .nil
  counted i hi := absurd hi List.not_mem_nil
  begun a ha := absurd ha List.not_mem_nil

/-- INTERNAL: the first node. -/
theorem Holds.make (h : Holds t q sh false none [] [] s) (ha : s.sh.heap a = none) :
    Holds t q sh false (some a) [(a, false)] [] (s.setShared (s.sh.setNode a .fresh)) where
  other b hb := by
    have hne : b ≠ a := by simpa using hb
    exact (Function.update_of_ne hne ..).trans (h.other b List.not_mem_nil)
  new b hb := by
    obtain rfl : b = a := by simpa using hb
    rw [← h.other b List.not_mem_nil]
    exact ha
  nodup := List.nodup_singleton a
  keeps := ⟨rfl, .fresh, Function.update_self .., rfl, trivial⟩
  unlocked := h.unlocked
  mutex := h.mutex
  lives := h.lives
  counted := h.counted
  begun b hb := absurd (h.begun b hb) List.not_mem_nil

/-- INTERNAL: the nodes before the last one are others. -/
theorem Holds.ne_last {b : Bool} (h : Holds t q sh locked owned (xs ++ [(tl, b)]) args s) :
    ∀ a ∈ xs.map Prod.fst, a ≠ tl := by
  have hnodup := h.nodup
  rw [List.map_append, List.nodup_append] at hnodup
  intro a ha
  exact hnodup.2.2 a ha tl (List.mem_singleton_self tl)

/-- INTERNAL: another node behind the last one. -/
theorem Holds.append (h : Holds t q sh locked owned (xs ++ [(tl, true)]) args s)
    (hnd : s.sh.heap tl = some nd) (ha : s.sh.heap a = none) :
    Holds t q sh locked owned ((xs ++ [(tl, true)]) ++ [(a, false)]) args
      (s.setShared ((s.sh.setNode tl { nd with mNext := some a }).setNode a .fresh)) := by
  have hnew : ∀ b ∈ (xs ++ [(tl, true)]).map Prod.fst, b ≠ a := by
    rintro b hb rfl
    obtain ⟨nd', hnd'⟩ := h.keeps.alive b hb
    rw [ha] at hnd'
    cases hnd'
  have htl : tl ≠ a := hnew tl (by simp)
  obtain ⟨nd', hnd', hflag, -⟩ := h.keeps.last
  obtain rfl : nd = nd' := Option.some.inj (hnd.symm.trans hnd')
  have hxs := h.ne_last
  refine ⟨fun b hb => ?_, fun b hb => ?_, ?_, ?_, h.unlocked, h.mutex, ?_, h.counted,
    fun b hb => List.mem_append_left _ (h.begun b hb)⟩
  · rw [List.map_append, List.mem_append, not_or] at hb
    have hba : b ≠ a := by simpa using hb.2
    have hbt : b ≠ tl := by
      rintro rfl
      exact hb.1 (by simp)
    show Function.update (Function.update s.sh.heap tl _) a _ b = _
    rw [Function.update_of_ne hba, Function.update_of_ne hbt]
    exact h.other b hb.1
  · rw [List.map_append, List.mem_append] at hb
    rcases hb with hb | hb
    · exact h.new b hb
    · obtain rfl : b = a := by simpa using hb
      rw [← h.other b fun hb' => hnew b hb' rfl]
      exact ha
  · rw [List.map_append, List.nodup_append]
    refine ⟨h.nodup, List.nodup_singleton a, fun b hb c hc => ?_⟩
    obtain rfl : c = a := by simpa using hc
    exact hnew b hb
  · rw [List.append_assoc]
    refine h.keeps.replace_last (fun b hb => ?_) ⟨{ nd with mNext := some a }, ?_, hflag, ?_⟩
    · show Function.update (Function.update s.sh.heap tl _) a _ b = _
      rw [Function.update_of_ne (hnew b (by simp [hb])), Function.update_of_ne (hxs b hb)]
    · show Function.update (Function.update s.sh.heap tl _) a _ tl = _
      rw [Function.update_of_ne htl, Function.update_self]
    · exact ⟨rfl, .fresh, Function.update_self .., rfl, trivial⟩
  · have helements : elements ((xs ++ [(tl, true)]) ++ [(a, false)]) =
        elements (xs ++ [(tl, true)]) := by
      simp [elements]
    rw [helements]
    exact h.lives

/-- INTERNAL: the element in the last node has been constructed. -/
theorem Holds.fill (h : Holds t q sh locked owned (xs ++ [(tl, false)]) args s)
    (hnd : s.sh.heap tl = some nd) (w : T) :
    Holds t q sh locked owned (xs ++ [(tl, true)]) args
      ((s.setShared (s.sh.setNode tl { nd with data := some w, initialized := true })).record
        (.begins (.element tl))) := by
  obtain ⟨nd', hnd', -, hnext⟩ := h.keeps.last
  obtain rfl : nd = nd' := Option.some.inj (hnd.symm.trans hnd')
  have haddr : (xs ++ [(tl, true)]).map Prod.fst = (xs ++ [(tl, false)]).map Prod.fst := by simp
  have hxs := h.ne_last
  have hfirst : Life.begins (Obj.element tl) ∉ s.log := by
    intro hmem
    rcases List.mem_append.mp (h.begun tl hmem) with hx | hx
    · exact hxs tl (List.mem_map.mpr ⟨_, hx, rfl⟩) rfl
    · simp at hx
  refine ⟨fun b hb => ?_, fun b hb => h.new b (haddr ▸ hb), haddr ▸ h.nodup, ?_, h.unlocked,
    h.mutex, ?_, fun i hi => ?_, fun b hb => ?_⟩
  · rw [haddr] at hb
    have hbt : b ≠ tl := by
      rintro rfl
      exact hb (by simp)
    exact (Function.update_of_ne hbt ..).trans (h.other b hb)
  · refine h.keeps.replace_last (fun b hb => Function.update_of_ne (hxs b hb) ..)
      ⟨_, Function.update_self .., rfl, ?_⟩
    rw [hnext]
    trivial
  · refine (h.lives.begins hfirst).perm ?_
    have helements : elements (xs ++ [(tl, true)]) =
        elements (xs ++ [(tl, false)]) ++ [.element tl] := by
      simp [elements]
    rw [helements, ← List.append_assoc]
    exact (List.perm_append_singleton _ _).symm
  · refine h.counted i ?_
    simpa [PushState.record, PushState.setShared] using hi
  · rcases List.mem_append.mp hb with hb | hb
    · rcases List.mem_append.mp (h.begun b hb) with hx | hx
      · exact List.mem_append_left _ hx
      · simp at hx
    · obtain rfl : b = tl := by simpa using hb
      simp

/-- INTERNAL: a parameter has been constructed. -/
theorem Holds.arg (h : Holds t q sh locked owned xs args s) :
    Holds t q sh locked owned xs (s.args :: args)
      { s.record (.begins (.arg s.args)) with args := s.args + 1 } := by
  refine ⟨h.other, h.new, h.nodup, h.keeps, h.unlocked, h.mutex, h.lives.begins fun hmem => ?_,
    fun i hi => ?_, fun b hb => h.begun b ?_⟩
  · exact absurd (h.counted s.args hmem) (Nat.lt_irrefl _)
  · show i < s.args + 1
    rcases List.mem_append.mp hi with hi | hi
    · have hlt := h.counted i hi
      omega
    · obtain rfl : i = s.args := by simpa using hi
      omega
  · simpa [PushState.record] using hb

/-- INTERNAL: the last parameter has been destroyed. -/
theorem Holds.endArg (h : Holds t q sh locked owned xs (i :: args) s) :
    Holds t q sh locked owned xs args (s.record (.ends (.arg i))) := by
  refine ⟨h.other, h.new, h.nodup, h.keeps, h.unlocked, h.mutex, h.lives.ends, fun j hj =>
    h.counted j ?_, fun b hb => h.begun b ?_⟩
  · simpa [PushState.record] using hj
  · simpa [PushState.record] using hb

/-- INTERNAL: `m_tail_mut` has been locked. -/
theorem Holds.lock (h : Holds t q sh false owned xs args s) {Q' : Queue Tid}
    (hQ : s.sh.queues q = some Q') (hfree : Q'.mTailMut = none) :
    Holds t q sh true owned xs args
      (s.setShared (s.sh.setQueue q { Q' with mTailMut := some t })) := by
  have hqueues := h.unlocked rfl
  refine ⟨h.other, h.new, h.nodup, h.keeps, fun hl => absurd hl (by decide),
    fun _ => ⟨Q', hqueues ▸ hQ, hfree, ?_⟩, h.lives, h.counted, h.begun⟩
  show Function.update s.sh.queues q _ = _
  rw [hqueues]

/-- INTERNAL: `m_tail_mut` has been released again. -/
theorem Holds.unlock (h : Holds t q sh true owned xs args s) {Q' : Queue Tid}
    (hQ : s.sh.queues q = some Q') :
    Holds t q sh false owned xs args
      (s.setShared (s.sh.setQueue q { Q' with mTailMut := none })) := by
  obtain ⟨Q₀, hQ₀, hfree, hqueues⟩ := h.mutex rfl
  have hQ' : Q' = { Q₀ with mTailMut := some t } := by
    rw [hqueues, Function.update_self] at hQ
    exact (Option.some.inj hQ).symm
  refine ⟨h.other, h.new, h.nodup, h.keeps, fun _ => ?_, fun hl => absurd hl (by decide),
    h.lives, h.counted, h.begun⟩
  show Function.update s.sh.queues q _ = _
  rw [hqueues, Function.update_idem, hQ', ← hfree, ← hQ₀, Function.update_eq_self]

/-- INTERNAL: the local `unique_ptr` has been destroyed. -/
theorem Holds.destroy (h : Holds t q sh false owned xs [] s)
    {heap' : Addr → Option (Node T)} {log : List (Life Obj)}
    (hd : Destroys s.sh.heap owned heap' log) :
    (⟨heap', s.sh.queues⟩ : Shared Tid Q T) = sh ∧ Lifetimes (s.log ++ log) [] := by
  obtain ⟨hdead, hother, rfl⟩ := hd.spec h.keeps
  refine ⟨?_, ?_⟩
  · rw [h.unlocked rfl]
    congr 1
    funext a
    by_cases ha : a ∈ xs.map Prod.fst
    · rw [hdead a ha, h.new a ha]
    · rw [hother a ha, h.other a ha]
  · apply Lifetimes.ends_all
    rw [List.append_nil]
    exact h.lives

end Holding

/-! ## Every point of a push -/

/-- What a call of `construct_data` has found. -/
def Target.Holds [DecidableEq Q] (t : Tid) (q : Q) (sh : Shared Tid Q T) (args : List ℕ)
    (s : PushState Tid Q T) : Target T → Prop
  | .sub _ headSub tailSub =>
    ∃ xs, TsQueue.Holds t q sh false (some headSub) (xs ++ [(tailSub, false)]) args s
  | .tail appended => ∃ xs, TsQueue.Holds t q sh true (some appended.first) xs args s

/-- What a push that began in the state `sh` holds at each point where it may still
throw. -/
def PushHolds [DecidableEq Q] (t : Tid) (sh : Shared Tid Q T) (s : PushState Tid Q T) :
    PushPc Q T → Prop
  | .emplace q _ _ | .pushRange q _ | .makeHead q _ _ => Holds t q sh false none [] [] s
  | .loop q _ _ headSub tailSub =>
    ∃ xs, Holds t q sh false (some headSub) (xs ++ [(tailSub, false)]) [] s
  | .lockTail q _ _ sub => ∃ xs, Holds t q sh false (some sub.first) xs [] s
  | .copyArgs q _ _ tgt _ args | .construct q _ _ tgt args => tgt.Holds t q sh args s
  | .endArgs q _ (.sub _ headSub tailSub) args =>
    ∃ xs, Holds t q sh false (some headSub) (xs ++ [(tailSub, true)]) args s
  | .makeNext q _ _ headSub tailSub =>
    ∃ xs, Holds t q sh false (some headSub) (xs ++ [(tailSub, true)]) [] s
  | .unwind q args locked owned => ∃ xs, Holds t q sh locked (some owned) xs args s
  | .thrown => s.sh = sh ∧ Lifetimes s.log []
  | _ => True

section Moves

variable [DecidableEq Q] [Storable T] {t : Tid} {sh : Shared Tid Q T} {p p' : PushPc Q T}
  {s s' : PushState Tid Q T}

/-- INTERNAL: the statements of the calls. -/
theorem PushRuns.holds (hsize : size T ≤ 8) (h : PushHolds t sh s p)
    (hs : PushRuns t p s p' s') : PushHolds t sh s' p' := by
  cases hs with
  | emplace ha => exact ⟨_, h.make ha⟩
  | rangeNil => trivial
  | range => exact h
  | makeHead ha => exact ⟨[], h.make ha⟩
  | loop => exact h
  | loopEnd =>
    obtain ⟨xs, h⟩ := h
    exact ⟨_, h⟩
  | lockTail hQ hfree =>
    obtain ⟨xs, h⟩ := h
    exact ⟨xs, h.lock hQ hfree⟩
  | @copyArg _ _ _ _ tgt =>
    cases tgt with
    | sub | tail =>
      obtain ⟨xs, h⟩ := h
      exact ⟨xs, h.arg⟩
  | copied => exact h
  | @construct _ _ _ w tgt _ _ _ ha hnd =>
    cases tgt with
    | sub =>
      obtain ⟨xs, h⟩ := h
      obtain rfl := Option.some.inj ha
      rw [Node.setInitialized_of_le hsize, Node.construct_of_le hsize]
      exact ⟨xs, h.fill hnd w⟩
    | tail => trivial
  | @endArg _ _ _ tgt =>
    cases tgt with
    | sub =>
      obtain ⟨xs, h⟩ := h
      exact ⟨xs, h.endArg⟩
    | tail => trivial
  | constructedSub => exact h
  | constructedTail => trivial
  | makeNext ha hlinks =>
    obtain ⟨xs, h⟩ := h
    obtain ⟨nd, hnd, -, hnull⟩ := h.keeps.last
    obtain rfl := (links_new hsize hnd hnull ha).mp hlinks
    exact ⟨_, h.append hnd ha⟩
  | linkNext | moveTail | moveTailRange | unlockTail => trivial

omit [Storable T] in
/-- INTERNAL: before the first node is made there is nothing to be destroyed. -/
theorem Holds.nothing {q : Q} (h : Holds t q sh false none [] [] s) :
    s.sh = sh ∧ Lifetimes s.log [] := by
  have hd := h.destroy (.null s.sh.heap)
  rwa [List.append_nil] at hd

/-- INTERNAL: an exception finds what the call holds. -/
theorem Throws.holds (hsize : size T ≤ 8) (h : PushHolds t sh s p) (hs : Throws p s p' s') :
    PushHolds t sh s' p' := by
  cases hs with
  | emplace | range | makeHead => exact h.nothing
  | loop | makeNext =>
    obtain ⟨xs, h⟩ := h
    exact ⟨_, h⟩
  | lockTail => exact h
  | copyArg _ _ _ _ tgt =>
    cases tgt with
    | sub | tail =>
      obtain ⟨xs, h⟩ := h
      exact ⟨_, h⟩
  | @construct _ _ _ _ tgt _ _ _ _ _ hnd hlen =>
    rw [Node.overlay_of_le hsize _ hlen, setNode_self hnd]
    cases tgt with
    | sub | tail =>
      obtain ⟨xs, h⟩ := h
      exact ⟨_, h⟩

omit [Storable T] in
/-- INTERNAL: the destructors. -/
theorem Unwinds.holds (h : PushHolds t sh s p) (hs : Unwinds p s p' s') :
    PushHolds t sh s' p' := by
  cases hs with
  | arg =>
    obtain ⟨xs, h⟩ := h
    exact ⟨xs, h.endArg⟩
  | lock hQ =>
    obtain ⟨xs, h⟩ := h
    exact ⟨xs, h.unlock hQ⟩
  | owned hd =>
    obtain ⟨xs, h⟩ := h
    exact h.destroy hd

/-- INTERNAL: what holds at the point that a push has reached. -/
theorem push_holds (hsize : size T ≤ 8) {q : Q} {p₀ : PushPc Q T} (hp : PushEntry q p₀)
    (h : ReflTransGen (PushMoves t) (p₀, .start sh) (p, s)) : PushHolds t sh s p := by
  have hall : ∀ x, ReflTransGen (PushMoves t) (p₀, .start sh) x → PushHolds t sh x.2 x.1 := by
    intro x hx
    induction hx with
    | refl =>
      cases hp with
      | emplace | pushRange => exact Holds.start t q sh
    | tail _ hmove ih =>
      cases hmove with
      | runs hs => exact hs.holds hsize ih
      | throws hs => exact hs.holds hsize ih
      | unwinds hs => exact hs.holds ih
  exact hall _ h

/-- INTERNAL: the destructors run to the end. -/
theorem unwinding_ends {q : Q} {args : List ℕ} {locked : Bool} {owned : Addr}
    (h : PushHolds t sh s (.unwind q args locked owned)) :
    ∃ s₂, ReflTransGen (PushMoves t) (.unwind q args locked owned, s) (.thrown, s₂) := by
  induction args generalizing s with
  | nil =>
    obtain ⟨xs, h⟩ := h
    cases locked with
    | false =>
      obtain ⟨heap', log, hd⟩ := h.keeps.destroys
      exact ⟨_, .single (.unwinds (.owned hd))⟩
    | true =>
      obtain ⟨Q₀, -, -, hqueues⟩ := h.mutex rfl
      have hQ : s.sh.queues q = some { Q₀ with mTailMut := some t } := by
        rw [hqueues, Function.update_self]
      obtain ⟨heap', log, hd⟩ := (h.unlock hQ).keeps.destroys
      exact ⟨_, .head (.unwinds (.lock hQ)) (.single (.unwinds (.owned hd)))⟩
  | cons i args ih =>
    obtain ⟨xs, h⟩ := h
    obtain ⟨s₂, hrest⟩ := ih ⟨xs, h.endArg⟩
    exact ⟨s₂, .head (.unwinds .arg) hrest⟩

/-- Whichever statement of `emplace`, `push` or `push_range` throws, the destructors run to
the end. When the exception leaves the call, all nodes, members and mutexes are as before it,
and every object that the call has constructed was destroyed exactly once. -/
def AllOrNothing (t : Tid) (q : Q) (sh : Shared Tid Q T) : Prop :=
  ∀ p₀ p₁ p₂ s₁ s₁', PushEntry q p₀ → ReflTransGen (PushMoves t) (p₀, .start sh) (p₁, s₁) →
    Throws p₁ s₁ p₂ s₁' →
    (∃ s₂, ReflTransGen (PushMoves t) (p₂, s₁') (.thrown, s₂)) ∧
      ∀ s₂, ReflTransGen (PushMoves t) (p₂, s₁') (.thrown, s₂) →
        s₂.sh = sh ∧ Lifetimes s₂.log [] ∧ ∀ o, .begins o ∈ s₂.log →
          s₂.log.count (.begins o) = 1 ∧ s₂.log.count (.ends o) = 1

/-- INTERNAL: small elements reach no other member. -/
theorem allOrNothing_of_le (hsize : size T ≤ 8) (t : Tid) (q : Q) (sh : Shared Tid Q T) :
    AllOrNothing t q sh := by
  intro p₀ p₁ p₂ s₁ s₁' hp h hthrow
  have h₂ := h.tail (.throws hthrow)
  refine ⟨?_, fun s₂ hend => ?_⟩
  · have hholds := push_holds hsize hp h₂
    cases hthrow with
    | emplace | range | makeHead => exact ⟨s₁, .refl⟩
    | loop | lockTail | copyArg | construct | makeNext => exact unwinding_ends hholds
  · obtain ⟨hsh, hlives⟩ := push_holds hsize hp (h₂.trans hend)
    exact ⟨hsh, hlives, fun o ho => hlives.ended_once ho⟩

end Moves

/-! ## A constructor that writes over the other members -/

section Large

variable [Storable T]

/-- A queue that has just been constructed. -/
def newQueue (Tid T : Type) [DecidableEq Q] (q : Q) : Shared Tid Q T :=
  ⟨Function.update (fun _ => none) 0 (some .fresh),
    Function.update (fun _ => none) q (some ⟨none, none, [], false, some 0, some 0⟩)⟩

/-- INTERNAL: ones over `m_next` are not the null pointer. -/
theorem overlay_ones (hsize : 8 < size T) :
    ((Node.fresh : Node T).overlay (List.replicate (size T) 1)).mNext ≠ none := by
  have hlen : 8 < (List.replicate (size T) (1 : UInt8)).length := by rwa [List.length_replicate]
  simp only [Node.overlay, nextOffset_eq, if_pos hlen, ne_eq, pointerOf_eq_none,
    ofLittleEndian_eq_zero]
  -- the byte at offset 8 belongs to both
  intro hzero
  have hone : write (write (fun _ => 0) 8 (pointerBytes (Node.fresh : Node T).mNext)) 0
      (List.replicate (size T) 1) (0 + 8) = 1 := by
    rw [write_of_lt hlen, List.getElem_replicate]
  have hbyte := hzero 1 (List.mem_map.mpr ⟨0, by simp, hone⟩)
  exact absurd hbyte (by decide)

/-- INTERNAL: `emplace` with a constructor that writes ones and throws. -/
theorem not_allOrNothing [DecidableEq Q] (hsize : 8 < size T) (t : Tid) (q : Q) (v : T) :
    ¬AllOrNothing t q (newQueue Tid T q) := by
  intro hall
  have h₁ := (ReflTransGen.refl : ReflTransGen (PushMoves t)
    (PushPc.emplace q v 0, .start (newQueue Tid T q)) _).tail (.runs (.emplace (a := 1) rfl))
  have hfree : (newQueue Tid T q).queues q = some ⟨none, none, [], false, some 0, some 0⟩ := by
    simp [newQueue]
  have h₂ := h₁.tail (.runs (.lockTail hfree rfl))
  have h₃ := h₂.tail (.runs .copied)
  have hqueue : (((newQueue Tid T q).setNode 1 .fresh).setQueue q
      ⟨none, some t, [], false, some 0, some 0⟩).queues q =
        some ⟨none, some t, [], false, some 0, some 0⟩ := Shared.setQueue_self ..
  have hnode : (Target.tail (.node 1) : Target T).node (((newQueue Tid T q).setNode 1
      .fresh).setQueue q ⟨none, some t, [], false, some 0, some 0⟩) q = some 0 := by
    rw [Target.node, hqueue, Option.bind_some]
  have hthrow : Throws (.construct q v v (.tail (.node 1)) []) ⟨((newQueue Tid T q).setNode 1
      .fresh).setQueue q ⟨none, some t, [], false, some 0, some 0⟩, 0, []⟩ _ _ :=
    .construct v v [] (List.replicate (size T) 1) hnode rfl (List.length_replicate ..)
  have hagain : ∀ {x y : PushPc Q T × PushState Tid Q T},
      ReflTransGen (PushMoves t) x y → ReflTransGen (PushMoves t) y y := fun _ => .refl
  have k₀ := hagain (h₃.tail (.throws hthrow))
  have k₁ := k₀.tail (.unwinds (.lock hqueue))
  have k₂ := k₁.tail (.unwinds (.owned (.node rfl (.null _))))
  obtain ⟨hsh, -⟩ := (hall _ _ _ _ _ (.emplace v 0) h₃ hthrow).2 _ k₂
  have hlast : some ((Node.fresh : Node T).overlay (List.replicate (size T) 1)) = some .fresh :=
    congrFun (congrArg Shared.heap hsh) 0
  exact overlay_ones hsize (congrArg Node.mNext (Option.some.inj hlast))

/-- A constructor of two integers that throws after it has written them. -/
theorem push_changes_link : ¬AllOrNothing () () (newQueue Unit LongPair ()) :=
  not_allOrNothing (by decide) () () ⟨0, 0⟩

/-- **Pushes are all or nothing** in every state of the queue exactly if the elements have at
most 8 bytes. -/
theorem push_all_or_nothing [DecidableEq Q] (t : Tid) (q : Q) (v : T) :
    (∀ sh : Shared Tid Q T, AllOrNothing t q sh) ↔ size T ≤ 8 := by
  refine ⟨fun hall => ?_, fun hsize sh => allOrNothing_of_le hsize t q sh⟩
  by_contra hlt
  exact not_allOrNothing (Nat.lt_of_not_le hlt) t q v (hall _)

end Large

/-! ## Pushes that do not throw -/

/-- The point in the model of the queue that a push has come to. A node that `push_range`
has filled and not linked yet is still as it was there. -/
inductive Corresponds [Storable T] (n : Notify) :
    PushPc Q T × PushState Tid Q T → Pc Q T × Shared Tid Q T → Prop
  | emplace (s : PushState Tid Q T) (q : Q) (v : T) (k : ℕ) :
      Corresponds n (.emplace q v k, s) (.makeNode q v n, s.sh)
  | pushRange (s : PushState Tid Q T) (q : Q) (r : Range T) :
      Corresponds n (.pushRange q r, s) (.makeSub q r n, s.sh)
  | makeHead (s : PushState Tid Q T) (q : Q) (first v : T) (rest : List T) :
      Corresponds n (.makeHead q v rest, s) (.makeSub q (.cons first rest v) n, s.sh)
  | loop (s : PushState Tid Q T) (q : Q) (v : T) (rest : List T) (headSub tailSub : Addr) :
      Corresponds n (.loop q v rest headSub tailSub, s)
        (.copyRange q v rest headSub tailSub n, s.sh)
  | copySub (s : PushState Tid Q T) (q : Q) (v w : T) (rest : List T) (headSub tailSub : Addr)
      (left : ℕ) (args : List ℕ) :
      Corresponds n (.copyArgs q v w (.sub rest headSub tailSub) left args, s)
        (.copyRange q v (w :: rest) headSub tailSub n, s.sh)
  | constructSub (s : PushState Tid Q T) (q : Q) (v w : T) (rest : List T)
      (headSub tailSub : Addr) (args : List ℕ) :
      Corresponds n (.construct q v w (.sub rest headSub tailSub) args, s)
        (.copyRange q v (w :: rest) headSub tailSub n, s.sh)
  | endSub (s : PushState Tid Q T) (q : Q) {v w : T} {rest : List T} {headSub tailSub : Addr}
      {args : List ℕ} {nd : Node T} :
      s.sh.heap tailSub = some (nd.construct w).setInitialized →
      Corresponds n (.endArgs q v (.sub rest headSub tailSub) args, s)
        (.copyRange q v (w :: rest) headSub tailSub n, s.sh.setNode tailSub nd)
  | makeNext (s : PushState Tid Q T) (q : Q) {v w : T} {rest : List T} {headSub tailSub : Addr}
      {nd : Node T} : s.sh.heap tailSub = some (nd.construct w).setInitialized →
      Corresponds n (.makeNext q v rest headSub tailSub, s)
        (.copyRange q v (w :: rest) headSub tailSub n, s.sh.setNode tailSub nd)
  | lockTail (s : PushState Tid Q T) (q : Q) (v : T) (k : ℕ) (sub : Sub) :
      Corresponds n (.lockTail q v k sub, s) (.lockTail q v sub n, s.sh)
  | copyTail (s : PushState Tid Q T) (q : Q) (v : T) (sub : Sub) (left : ℕ) (args : List ℕ) :
      Corresponds n (.copyArgs q v v (.tail sub) left args, s) (.constructData q v sub n, s.sh)
  | constructTail (s : PushState Tid Q T) (q : Q) (v : T) (sub : Sub) (args : List ℕ) :
      Corresponds n (.construct q v v (.tail sub) args, s) (.constructData q v sub n, s.sh)
  | endTail (s : PushState Tid Q T) (q : Q) (v : T) (sub : Sub) (args : List ℕ) :
      Corresponds n (.endArgs q v (.tail sub) args, s) (.linkNext q sub n, s.sh)
  | linkNext (s : PushState Tid Q T) (q : Q) (sub : Sub) :
      Corresponds n (.linkNext q sub, s) (.linkNext q sub n, s.sh)
  | moveTail (s : PushState Tid Q T) (q : Q) (sub : Sub) :
      Corresponds n (.moveTail q sub, s) (.moveTail q sub n, s.sh)
  | unlockTail (s : PushState Tid Q T) (q : Q) :
      Corresponds n (.unlockTail q, s) (.unlockTail q n, s.sh)
  | returned (s : PushState Tid Q T) (q : Q) :
      Corresponds n (.returned, s) (afterPush q n, s.sh)

section Corresponds

variable [DecidableEq Q] [Storable T] {t : Tid} {n : Notify}

/-- Steps of a push in the model of the queue. -/
abbrev PushSteps (t : Tid) : Pc Q T × Shared Tid Q T → Pc Q T × Shared Tid Q T → Prop :=
  ReflTransGen fun x y => OverlapPush t x.1 x.2 y.1 y.2

omit [DecidableEq Q] [Storable T] in
/-- INTERNAL: writing a node back as it was. -/
theorem setNode_back {s : Shared Tid Q T} {a : Addr} {nd : Node T} (h : s.heap a = some nd)
    (nd' : Node T) : (s.setNode a nd').setNode a nd = s := by
  rw [setNode_setNode, setNode_self h]

/-- INTERNAL: the element in the last node of the queue, and its flag. -/
theorem pushSteps_construct {s : Shared Tid Q T} {q : Q} {v : T} {sub : Sub} {a : Addr}
    {nd : Node T} {Q' : Queue Tid} (hQ : s.queues q = some Q') (htl : Q'.mTail = some a)
    (hnd : s.heap a = some nd) :
    PushSteps t (.constructData q v sub n, s)
      (.linkNext q sub n, s.setNode a (nd.construct v).setInitialized) := by
  have h₁ : OverlapPush t (.constructData q v sub n) s (.setInitialized q sub n)
      (s.setNode a (nd.construct v)) := .constructData hQ htl hnd
  have hself : (s.setNode a (nd.construct v)).heap a = some (nd.construct v) :=
    Function.update_self ..
  have h₂ : OverlapPush t (.setInitialized q sub n) (s.setNode a (nd.construct v))
      (.linkNext q sub n) ((s.setNode a (nd.construct v)).setNode a
        (nd.construct v).setInitialized) :=
    .setInitialized (s := s.setNode a (nd.construct v)) hQ htl hself
  rw [setNode_setNode] at h₂
  have hsteps : PushSteps t (.setInitialized q sub n, s.setNode a (nd.construct v))
      (.linkNext q sub n, s.setNode a (nd.construct v).setInitialized) :=
    .single h₂
  exact .head h₁ hsteps

/-- INTERNAL: a node that has been filled before is linked to the next one. -/
theorem overlapPush_copyRange {s : Shared Tid Q T} {q : Q} {v w : T} {rest : List T}
    {headSub tailSub a : Addr} {nd : Node T} {heap' : Addr → Option (Node T)}
    (hnd : s.heap tailSub = some (nd.construct w).setInitialized) (ha : s.heap a = none)
    (hlinks : Links (s.setNode a .fresh).heap tailSub a heap') :
    OverlapPush t (.copyRange q v (w :: rest) headSub tailSub n) (s.setNode tailSub nd)
      (.copyRange q v rest headSub a n) ⟨heap', s.queues⟩ := by
  have hne : a ≠ tailSub := by
    rintro rfl
    rw [hnd] at ha
    cases ha
  have hlast : (s.setNode tailSub nd).heap tailSub = some nd := Function.update_self ..
  have hfree : (s.setNode tailSub nd).heap a = none := by
    rw [Shared.setNode_heap, Function.update_of_ne hne]
    exact ha
  refine .copyRange (s := s.setNode tailSub nd) hlast hfree ?_
  rwa [setNode_back hnd]

/-- INTERNAL: the model of the queue follows each statement. -/
theorem PushRuns.follows {p p' : PushPc Q T} {s s' : PushState Tid Q T}
    {X : Pc Q T × Shared Tid Q T} (hf : Corresponds n (p, s) X) (hs : PushRuns t p s p' s') :
    ∃ X', PushSteps t X X' ∧ Corresponds n (p', s') X' := by
  cases hs with
  | emplace ha =>
    cases hf
    exact ⟨_, .single (.other id (.makeNode ha)), .lockTail ..⟩
  | rangeNil =>
    cases hf
    exact ⟨_, .single (.other id (.makeSubNil ..)), .returned ..⟩
  | range =>
    cases hf
    exact ⟨_, .refl, .makeHead ..⟩
  | makeHead ha =>
    cases hf
    exact ⟨_, .single (.other id (.makeSub ha)), .loop ..⟩
  | loop =>
    cases hf
    exact ⟨_, .refl, .copySub ..⟩
  | loopEnd =>
    cases hf
    exact ⟨_, .single (.other id (.copyRangeNil ..)), .lockTail ..⟩
  | lockTail hQ hfree =>
    cases hf
    exact ⟨_, .single (.other id (.lockTail hQ hfree)), .copyTail ..⟩
  | copyArg =>
    cases hf with
    | copySub => exact ⟨_, .refl, .copySub ..⟩
    | copyTail => exact ⟨_, .refl, .copyTail ..⟩
  | copied =>
    cases hf with
    | copySub => exact ⟨_, .refl, .constructSub ..⟩
    | copyTail => exact ⟨_, .refl, .constructTail ..⟩
  | @construct _ q v w _ args a nd ha hnd =>
    cases hf with
    | @constructSub _ _ _ _ rest headSub tailSub _ =>
      obtain rfl : tailSub = a := Option.some.inj ha
      refine ⟨_, .refl, ?_⟩
      have hend : Corresponds n (.endArgs q v (.sub rest headSub tailSub) args,
          (s.setShared (s.sh.setNode tailSub (nd.construct w).setInitialized)).record
            (.begins (.element tailSub)))
          (.copyRange q v (w :: rest) headSub tailSub n,
            (s.sh.setNode tailSub (nd.construct w).setInitialized).setNode tailSub nd) :=
        .endSub _ q (Function.update_self ..)
      -- the node stays as it was until its link is written
      rwa [setNode_back hnd] at hend
    | @constructTail _ _ _ sub _ =>
      obtain ⟨Q', hQ, htl⟩ := Option.bind_eq_some_iff.mp ha
      exact ⟨_, pushSteps_construct hQ htl hnd, .endTail ..⟩
  | endArg =>
    cases hf with
    | endSub _ _ hnd => exact ⟨_, .refl, .endSub _ _ hnd⟩
    | endTail => exact ⟨_, .refl, .endTail ..⟩
  | constructedSub =>
    cases hf with
    | endSub _ _ hnd => exact ⟨_, .refl, .makeNext _ _ hnd⟩
  | constructedTail =>
    cases hf
    exact ⟨_, .refl, .linkNext ..⟩
  | makeNext ha hlinks =>
    cases hf with
    | makeNext _ _ hnd => exact ⟨_, .single (overlapPush_copyRange hnd ha hlinks), .loop ..⟩
  | linkNext hQ htl hlinks =>
    cases hf
    exact ⟨_, .single (.linkNext hQ htl hlinks), .moveTail ..⟩
  | moveTail hQ htl hnd =>
    cases hf
    exact ⟨_, .single (.other id (.moveTail hQ htl hnd)), .unlockTail ..⟩
  | moveTailRange hQ =>
    cases hf
    exact ⟨_, .single (.other id (.moveTailRange hQ)), .unlockTail ..⟩
  | unlockTail hQ =>
    cases hf
    exact ⟨_, .single (.other id (.unlockTail hQ)), .returned ..⟩

/-- INTERNAL: the model of the queue follows a push as long as nothing throws. -/
theorem push_follows {p₀ p : PushPc Q T} {s₀ s : PushState Tid Q T} {X₀ : Pc Q T × Shared Tid Q T}
    (hf : Corresponds n (p₀, s₀) X₀)
    (h : ReflTransGen (fun x y => PushRuns t x.1 x.2 y.1 y.2) (p₀, s₀) (p, s)) :
    ∃ X, PushSteps t X₀ X ∧ Corresponds n (p, s) X := by
  have hall : ∀ y, ReflTransGen (fun x y => PushRuns t x.1 x.2 y.1 y.2) (p₀, s₀) y →
      ∃ X, PushSteps t X₀ X ∧ Corresponds n y X := by
    intro y hy
    induction hy with
    | refl => exact ⟨X₀, .refl, hf⟩
    | tail _ hs ih =>
      obtain ⟨X, hX, hfX⟩ := ih
      obtain ⟨X', hX', hfX'⟩ := hs.follows hfX
      exact ⟨X', hX.trans hX', hfX'⟩
  exact hall _ h

/-- A push that returns has done what the push of the model of the queue does. -/
theorem push_returns (t : Tid) (q : Q) (sh : Shared Tid Q T) (n : Notify) {s : PushState Tid Q T} :
    (∀ v k, ReflTransGen (fun x y => PushRuns t x.1 x.2 y.1 y.2) (.emplace q v k, .start sh)
        (.returned, s) → ∃ q', PushSteps t (.makeNode q v n, sh) (afterPush q' n, s.sh)) ∧
      ∀ r, ReflTransGen (fun x y => PushRuns t x.1 x.2 y.1 y.2) (.pushRange q r, .start sh)
        (.returned, s) → ∃ q', PushSteps t (.makeSub q r n, sh) (afterPush q' n, s.sh) := by
  refine ⟨fun v k h => ?_, fun r h => ?_⟩
  · obtain ⟨X, hX, hf⟩ := push_follows (n := n) (.emplace (.start sh) q v k) h
    cases hf with
    | returned _ q' => exact ⟨q', hX⟩
  · obtain ⟨X, hX, hf⟩ := push_follows (n := n) (.pushRange (.start sh) q r) h
    cases hf with
    | returned _ q' => exact ⟨q', hX⟩

end Corresponds

end UbuntuProjects.TsQueue
