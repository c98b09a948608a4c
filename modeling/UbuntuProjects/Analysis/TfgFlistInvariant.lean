import UbuntuProjects.Analysis.TfgFlistAssertions

/-!
# `tfg_flist`: every step keeps the assertions

A step of a thread writes nodes whose mutexes the thread owns, nodes of its own and nodes
whose mutexes nobody owns (`Touched`), and of these the others rely on nothing. Each kind
of write has one lemma; `flistStep_guarantee` puts them together for all steps, and says
what a step does to the chain: `push a` puts node `a` in front, `unlink a` takes it out,
and every other step leaves it as it is.
-/

set_option autoImplicit false

namespace UbuntuProjects.TfgFlist

open Concurrency (Config Run Step anyStep Linked Outline)

variable {Tid L T : Type}

/-! ## Single writes -/

section Writes

variable {g g' : Ghost Tid} {heap : Addr → Option (Node Tid T)} {s : Shared Tid T}
  {t u : Tid} {a : Addr} {nd nd' : Node Tid T}

/-- A node that no thread but `t` relies on. -/
structure Touched (t : Tid) (g : Ghost Tid) (heap : Addr → Option (Node Tid T)) (a : Addr) :
    Prop where
  mutex : ∀ nd, heap a = some nd → nd.mMut = some t ∨ nd.mMut = none
  priv : ∀ u, g.priv a = some u → u = t

/-- INTERNAL: another thread relies neither on the node nor on its new mutex. -/
theorem rely_update (ht : Touched t g heap a) {x : Option (Node Tid T)}
    (hx : ∀ nd, x = some nd → nd.mMut = some t ∨ nd.mMut = none) (hu : u ≠ t) :
    Rely u g heap g (Function.update heap a x) := by
  have hne : ∀ b, Owns heap u b → b ≠ a := by
    rintro b ⟨nd, hnd, hm⟩ rfl
    rcases ht.mutex nd hnd with h | h
    · exact hu (Option.some.inj (hm.symm.trans h))
    · cases hm.symm.trans h
  refine ⟨fun b hb => Function.update_of_ne (hne b hb) .., fun b hb => ?_,
    fun b hb _ => hb, fun b hb => ⟨hb, Function.update_of_ne ?_ ..⟩⟩
  · obtain ⟨nd, hnd, hm⟩ := hb
    by_cases hba : b = a
    · subst hba
      rw [Function.update_self] at hnd
      rcases hx nd hnd with h | h
      · exact absurd (Option.some.inj (hm.symm.trans h)) hu
      · cases hm.symm.trans h
    · exact ⟨nd, by rwa [Function.update_of_ne hba] at hnd, hm⟩
  · rintro rfl
    exact hu (ht.priv u hb)

/-- INTERNAL: writing a node leaves every node to `t` that was left to it. -/
theorem Touched.update {b : Addr} (h : Touched t g heap b) {x : Option (Node Tid T)}
    (hx : ∀ nd, x = some nd → nd.mMut = some t ∨ nd.mMut = none) :
    Touched t g (Function.update heap a x) b := by
  refine ⟨fun nd hnd => ?_, h.priv⟩
  by_cases hba : b = a
  · subst hba
    exact hx nd (by simpa using hnd)
  · exact h.mutex nd (by simpa [hba] using hnd)

/-- INTERNAL: the ghost value changes for nodes of `t` only. -/
theorem rely_ghost (hchain : ∀ b ∈ g.nodes, b ∉ g'.nodes → Owns heap t b)
    (hpriv : ∀ b, g.priv b = some u → g'.priv b = some u) (hu : u ≠ t) :
    Rely u g heap g' heap := by
  refine ⟨fun _ _ => rfl, fun _ h => h, fun b hb ho => ?_, fun b hb => ⟨hpriv b hb, rfl⟩⟩
  by_contra hne
  obtain ⟨nd, hnd, hm⟩ := hchain b hb hne
  obtain ⟨nd', hnd', hm'⟩ := ho
  obtain rfl : nd = nd' := Option.some.inj (hnd.symm.trans hnd')
  exact hu (Option.some.inj (hm'.symm.trans hm))

/-- Who owns what after a node was written. -/
theorem owns_update {b : Addr} : Owns (Function.update heap a (some nd)) t b ↔
    (b = a ∧ nd.mMut = some t) ∨ (b ≠ a ∧ Owns heap t b) := by
  by_cases hba : b = a
  · subst hba
    simp [Owns]
  · simp [Owns, hba]

/-- Who owns what after a node was destroyed. -/
theorem owns_free {b : Addr} : Owns (Function.update heap a none) t b ↔
    b ≠ a ∧ Owns heap t b := by
  by_cases hba : b = a
  · subst hba
    simp [Owns]
  · simp [Owns, hba]

/-- INTERNAL: a write that keeps the link keeps all links. -/
theorem nextOf_update (h : heap a = some nd) (hn : nd'.mNext = nd.mNext) :
    nextOf (Function.update heap a (some nd')) = nextOf heap := by
  funext b
  by_cases hba : b = a
  · subst hba
    simp [nextOf, h, hn]
  · simp [nextOf, hba]

/-- INTERNAL: a write that keeps the link and leaves an element keeps the invariant. -/
theorem SharedInv.write (hI : SharedInv g s) (h : s.heap a = some nd)
    (hn : nd'.mNext = nd.mNext) (hd : nd.mPdata.isSome → nd'.mPdata.isSome) :
    SharedInv g (s.setNode a nd') where
  linked := by
    rw [Shared.setNode_heap, nextOf_update h hn]
    exact hI.linked
  front := by
    by_cases hb : beforeBegin = a
    · simp [hb]
    · simpa [hb] using hI.front
  element b hb := by
    obtain ⟨nb, v, hnb, hv⟩ := hI.element b hb
    by_cases hba : b = a
    · subst hba
      obtain rfl : nd = nb := Option.some.inj (h.symm.trans hnb)
      obtain ⟨v', hv'⟩ := Option.isSome_iff_exists.mp (hd (by simp [hv]))
      exact ⟨nd', v', by simp, hv'⟩
    · exact ⟨nb, v, by simpa [hba] using hnb, hv⟩
  apart b u hb := by
    refine ⟨(hI.apart b u hb).1, ?_⟩
    by_cases hba : b = a
    · simp [hba]
    · simpa [hba] using (hI.apart b u hb).2
  fresh b hb := by
    have hba : b ≠ a := by
      rintro rfl
      cases h.symm.trans (hI.fresh b hb)
    simpa [hba] using hI.fresh b hb

/-- INTERNAL: a node of the chain belongs to no thread. -/
theorem SharedInv.priv_none (hI : SharedInv g s) (ha : a ∈ g.nodes) (u : Tid) :
    g.priv a ≠ some u :=
  fun h => (hI.apart a u h).1 ha

/-- INTERNAL: a node of the chain is alive. -/
theorem SharedInv.alive (hI : SharedInv g s) (ha : a ∈ g.nodes) : ∃ nd, s.heap a = some nd := by
  rcases List.mem_cons.mp ha with rfl | ha
  · exact Option.isSome_iff_exists.mp hI.front
  · obtain ⟨nd, -, hnd, -⟩ := hI.element a ha
    exact ⟨nd, hnd⟩

/-- INTERNAL: a node of the chain whose mutex `t` owns. -/
theorem SharedInv.touched_of_owns (hI : SharedInv g s) (ha : a ∈ g.nodes)
    (ho : Owns s.heap t a) : Touched t g s.heap a := by
  refine ⟨fun nd hnd => ?_, fun u hu => absurd hu (hI.priv_none ha u)⟩
  obtain ⟨nd', hnd', hm⟩ := ho
  obtain rfl : nd = nd' := Option.some.inj (hnd.symm.trans hnd')
  exact .inl hm

/-- INTERNAL: a node of the chain whose mutex is free. -/
theorem SharedInv.touched_of_free (hI : SharedInv g s) (ha : a ∈ g.nodes)
    (h : s.heap a = some nd) (hm : nd.mMut = none) : Touched t g s.heap a := by
  refine ⟨fun nd' hnd => ?_, fun u hu => absurd hu (hI.priv_none ha u)⟩
  obtain rfl : nd = nd' := Option.some.inj (h.symm.trans hnd)
  exact .inr hm

/-- INTERNAL: the successor of a node of the chain. -/
theorem SharedInv.next (hI : SharedInv g s) {prev cur : Addr} (hp : prev ∈ g.nodes)
    (hn : nextOf s.heap prev = some cur) :
    cur ∈ g.nodes ∧ cur ∈ g.chain ∧ cur ≠ beforeBegin ∧ prev ≠ cur := by
  have hmem := hI.linked.next_mem hp hn
  refine ⟨List.mem_cons_of_mem _ hmem, hmem, ?_, ?_⟩
  · rintro rfl
    exact (List.nodup_cons.mp hI.linked.nodup).1 hmem
  · rintro rfl
    exact absurd (hI.linked.idxOf_lt hp hn) (Nat.lt_irrefl _)

end Writes

/-! ## Steps -/

/-- What a step does to the chain. -/
def Lab.chainAfter : Lab L T → List Addr → List Addr
  | .push a, xs => a :: xs
  | .unlink a, xs => xs.erase a
  | _, xs => xs

/-- What a step of thread `t` achieves: the invariant, its own next assertion, what the
others rely on, and the chain its label says. -/
def Guarantee (t : Tid) (g : Ghost Tid) (s : Shared Tid T) (l : Lab L T) (p' : Pc L T)
    (s' : Shared Tid T) : Prop :=
  ∃ g', SharedInv g' s' ∧ assertion g' t p' s' ∧ g'.chain = l.chainAfter g.chain ∧
    ∀ u, u ≠ t → Rely u g s.heap g' s'.heap

section Steps

variable {g : Ghost Tid} {s s' : Shared Tid T} {t : Tid} {p p' : Pc L T}
  {l : Lab L T} {a : Addr} {nd nd' : Node Tid T}

/-- INTERNAL: a step that changes the control point only. -/
theorem guarantee_of_local (hI : SharedInv g s) (h : assertion g t p' s)
    (hl : l.chainAfter g.chain = g.chain) : Guarantee t g s l p' s :=
  ⟨g, hI, h, hl.symm, fun u _ => .refl u g s.heap⟩

/-- INTERNAL: a step that writes one node of the chain and keeps its link. -/
theorem guarantee_of_write (hI : SharedInv g s) (hown : ∀ b, Owns s.heap t b ↔ b ∈ p.owned)
    (ht : Touched t g s.heap a) (h : s.heap a = some nd) (hn : nd'.mNext = nd.mNext)
    (hd : nd.mPdata.isSome → nd'.mPdata.isSome) (hm : nd'.mMut = some t ∨ nd'.mMut = none)
    (howned : ∀ b, (b = a ∧ nd'.mMut = some t) ∨ (b ≠ a ∧ b ∈ p.owned) ↔ b ∈ p'.owned)
    (hp : (nextOf (s.setNode a nd').heap = nextOf s.heap) →
      Places g t (s.setNode a nd').heap p')
    (hl : l.chainAfter g.chain = g.chain) : Guarantee t g s l p' (s.setNode a nd') := by
  refine ⟨g, hI.write h hn hd, ⟨fun b => ?_, hp (nextOf_update h hn)⟩, hl.symm, fun u hu =>
    rely_update ht (fun n hn' => ?_) hu⟩
  · rw [Shared.setNode_heap, owns_update, hown b]
    exact howned b
  · obtain rfl := Option.some.inj hn'
    exact hm

/-- INTERNAL: constructing a node. -/
theorem make_guarantee (hI : SharedInv g s) (hown : ∀ b, ¬Owns s.heap t b) (v : T) :
    Guarantee t g s (.tau : Lab L T) (.pushLock v s.made : Pc L T)
      (s.newNode ⟨none, some v, none⟩) := by
  have hdead := hI.fresh s.made (Nat.le_refl _)
  have hne : ∀ b ∈ g.nodes, b ≠ s.made := by
    rintro b hb rfl
    obtain ⟨nd, hnd⟩ := hI.alive hb
    cases hnd.symm.trans hdead
  have htouched : Touched t g s.heap s.made :=
    ⟨fun nd hnd => absurd (hdead.symm.trans hnd) (by simp), fun u hu =>
      absurd (hI.apart s.made u hu).2 (by simp [hdead])⟩
  refine ⟨⟨g.chain, Function.update g.priv s.made (some t)⟩, ⟨?_, ?_, fun b hb => ?_,
    fun b u hb => ?_, fun b hb => ?_⟩, ⟨fun b => ?_, by simp [Places]⟩, rfl, fun u hu => ?_⟩
  · exact hI.linked.congr fun b hb => by simp [nextOf, hne b hb]
  · simpa [hne beforeBegin (List.mem_cons_self ..)] using hI.front
  · simpa [hne b (List.mem_cons_of_mem _ hb)] using hI.element b hb
  · by_cases hbm : b = s.made
    · exact ⟨fun hm => hne b hm hbm, by simp [hbm]⟩
    · replace hb : g.priv b = some u := (Function.update_of_ne hbm ..).symm.trans hb
      exact ⟨(hI.apart b u hb).1, by simpa [hbm] using (hI.apart b u hb).2⟩
  · simp only [Shared.newNode_made] at hb
    have hbm : b ≠ s.made := by omega
    simpa [hbm] using hI.fresh b (by omega)
  · rw [Shared.newNode_heap, owns_update]
    simp [hown b, Pc.owned]
  · refine (rely_update htouched (fun nd hnd => ?_) hu).trans
      (rely_ghost (fun b hb hb' => absurd hb hb') (fun b hb => ?_) hu)
    · obtain rfl := Option.some.inj hnd
      exact .inr rfl
    · refine (Function.update_of_ne ?_ ..).trans hb
      rintro rfl
      exact hu (htouched.priv u hb)

/-- INTERNAL: linking a node behind the one of `m_before_begin`. -/
theorem push_guarantee (hI : SharedInv g s) {v : T} {a : Addr} {b nd : Node Tid T}
    (hp : assertion g t (.pushLink v a : Pc L T) s) (hb : s.heap beforeBegin = some b)
    (hnd : s.heap a = some nd) :
    Guarantee t g s (.push a : Lab L T) (.unlock beforeBegin (.of .void))
      ((s.setNode a { nd with mNext := b.mNext }).setNode beforeBegin
        { b with mNext := some a }) := by
  obtain ⟨hown, hpriv, ha⟩ := hp
  obtain rfl : nd = _ := Option.some.inj (hnd.symm.trans ha)
  have hfront : beforeBegin ∈ g.nodes := List.mem_cons_self ..
  have hne : ∀ x ∈ g.nodes, x ≠ a := by
    rintro x hx rfl
    exact (hI.apart x t hpriv).1 hx
  have hba := hne beforeBegin hfront
  have hne' : ∀ x ∈ g.chain, x ≠ beforeBegin ∧ x ≠ a := fun x hx =>
    ⟨fun he => (List.nodup_cons.mp hI.linked.nodup).1 (he ▸ hx), hne x (List.mem_cons_of_mem _ hx)⟩
  have hbm : b.mMut = some t := by
    obtain ⟨b', hb', hm⟩ := (hown beforeBegin).mpr (by simp [Pc.owned])
    exact (Option.some.inj (hb.symm.trans hb')) ▸ hm
  refine ⟨⟨a :: g.chain, Function.update g.priv a none⟩, ⟨?_, by simp, fun x hx => ?_,
    fun x u hx => ?_, fun x hx => ?_⟩, ⟨fun x => ?_, List.mem_cons_self ..⟩, rfl, fun u hu => ?_⟩
  · refine hI.linked.insert ?_ ?_ fun x hx => ?_
    · simp [nextOf]
    · simp [nextOf, Ne.symm hba, hb]
    · simp [nextOf, (hne' x hx).1, (hne' x hx).2]
  · rcases List.mem_cons.mp hx with rfl | hx
    · exact ⟨_, v, by simp [Ne.symm hba]; rfl, rfl⟩
    · simpa [(hne' x hx).1, (hne' x hx).2] using hI.element x hx
  · by_cases hxa : x = a
    · simp [hxa] at hx
    · replace hx : g.priv x = some u := (Function.update_of_ne hxa ..).symm.trans hx
      obtain ⟨hn, hs⟩ := hI.apart x u hx
      have hxb : x ≠ beforeBegin := fun he => hn (he ▸ hfront)
      refine ⟨?_, by simpa [hxa, hxb] using hs⟩
      simpa [Ghost.nodes, hxa] using hn
  · have hx' := hI.fresh x hx
    have hxb : x ≠ beforeBegin := by
      rintro rfl
      cases hb.symm.trans hx'
    have hxa : x ≠ a := by
      rintro rfl
      cases hnd.symm.trans hx'
    simpa [hxa, hxb] using hx'
  · simp only [Shared.setNode_heap, owns_update, hown x, Pc.owned, hbm]
    simp
  · have htouched : Touched t g s.heap a :=
      ⟨fun n hn => .inr (Option.some.inj (hnd.symm.trans hn) ▸ rfl), fun w hw =>
        Option.some.inj (hw.symm.trans hpriv)⟩
    have hx : ∀ n : Node Tid T, some ⟨none, some v, b.mNext⟩ = some n →
        n.mMut = some t ∨ n.mMut = none := fun n hn => .inr (Option.some.inj hn ▸ rfl)
    have hfr := hI.touched_of_owns hfront ⟨b, hb, hbm⟩
    have hx' : ∀ n : Node Tid T, some { b with mNext := some a } = some n →
        n.mMut = some t ∨ n.mMut = none := fun n hn => .inl (Option.some.inj hn ▸ hbm)
    refine ((rely_update htouched hx hu).trans (rely_update (hfr.update hx) hx' hu)).trans
      (rely_ghost (fun x hx hx' => absurd ?_ hx') (fun x hx => ?_) hu)
    · rcases List.mem_cons.mp hx with rfl | hx
      · exact List.mem_cons_self ..
      · exact List.mem_cons_of_mem _ (List.mem_cons_of_mem _ hx)
    · refine (Function.update_of_ne ?_ ..).trans hx
      rintro rfl
      exact hu (htouched.priv u hx)

/-- `push_front`, `empty`, calls and returns keep the assertions. -/
theorem clientStep_guarantee (hI : SharedInv g s) (hp : assertion g t p s)
    (h : ClientStep t p s l p' s') : Guarantee t g s l p' s' := by
  obtain ⟨hown, hplaces⟩ := id hp
  have hfront : beforeBegin ∈ g.nodes := List.mem_cons_self ..
  cases h with
  | call _ op =>
    refine guarantee_of_local hI ⟨fun b => (hown b).trans ?_, ?_⟩ rfl
    · cases op <;> rfl
    · cases op <;> trivial
  | ret _ r => exact guarantee_of_local hI ⟨hown, trivial⟩ rfl
  | makeNode _ v => exact make_guarantee hI (fun b => by simp [hown b, Pc.owned]) v
  | @pushLock _ v a b h hm =>
    have hba : a ≠ beforeBegin := fun he => (hI.apart a t hplaces.1).1 (he ▸ hfront)
    refine guarantee_of_write (p := .pushLock v a) hI hown (hI.touched_of_free hfront h hm) h rfl
      (fun hd => hd) (.inl rfl) (fun b => ?_) (fun _ => ⟨hplaces.1, ?_⟩) rfl
    · simp [Pc.owned, Node.lock]
    · simpa [hba] using hplaces.2
  | pushLink h hnd => exact push_guarantee hI hp h hnd
  | emptyLock h hm =>
    refine guarantee_of_write (p := .emptyLock) hI hown (hI.touched_of_free hfront h hm) h rfl
      (fun hd => hd) (.inl rfl) (fun b => ?_) (fun _ => trivial) rfl
    simp [Pc.owned, Node.lock]
  | emptyTest h => exact guarantee_of_local hI ⟨hown, hfront⟩ rfl
  | @unlock _ a r nd h =>
    refine guarantee_of_write (p := .unlock a r) hI hown
      (hI.touched_of_owns hplaces ((hown a).mpr (by simp [Pc.owned]))) h rfl
      (fun hd => hd) (.inr rfl) (fun b => ?_) (fun _ => trivial) rfl
    simp [Pc.owned, Node.unlock]

/-- INTERNAL: locking the node that follows one whose mutex the thread owns, or the first. -/
theorem lock_guarantee (hI : SharedInv g s) (hp : assertion g t p s) (ha : a ∈ g.nodes)
    (h : s.heap a = some nd) (hm : nd.mMut = none)
    (howned : ∀ b, b = a ∨ b ∈ p.owned ↔ b ∈ p'.owned)
    (hplaces : ∀ heap : Addr → Option (Node Tid T), nextOf heap = nextOf s.heap →
      Places g t heap p') :
    Guarantee t g s (.tau : Lab L T) p' (s.setNode a (nd.lock t)) := by
  have hno : a ∉ p.owned := fun hmem => by
    obtain ⟨nd', hnd', hm'⟩ := (hp.1 a).mpr hmem
    obtain rfl := Option.some.inj (h.symm.trans hnd')
    cases hm.symm.trans hm'
  refine guarantee_of_write (p := p) hI hp.1 (hI.touched_of_free ha h hm) h rfl (fun hd => hd)
    (.inl rfl) (fun b => ?_) (hplaces _) rfl
  rw [← howned b]
  by_cases hb : b = a
  · simp [hb, Node.lock]
  · simp [hb]

/-- INTERNAL: releasing the mutex of a node of the chain. -/
theorem unlock_guarantee (hI : SharedInv g s) (hp : assertion g t p s) (ha : a ∈ g.nodes)
    (ho : a ∈ p.owned) (h : s.heap a = some nd)
    (howned : ∀ b, b ≠ a ∧ b ∈ p.owned ↔ b ∈ p'.owned)
    (hplaces : ∀ heap : Addr → Option (Node Tid T), nextOf heap = nextOf s.heap →
      Places g t heap p') :
    Guarantee t g s (.tau : Lab L T) p' (s.setNode a nd.unlock) := by
  refine guarantee_of_write (p := p) hI hp.1 (hI.touched_of_owns ha ((hp.1 a).mpr ho)) h rfl
    (fun hd => hd) (.inr rfl) (fun b => ?_) (hplaces _) rfl
  rw [← howned b]
  simp [Node.unlock]

/-- INTERNAL: writing the element of a node of the chain. -/
theorem element_guarantee (hI : SharedInv g s) (hp : assertion g t p s) (ha : a ∈ g.nodes)
    (ho : a ∈ p.owned) (h : s.heap a = some nd) (v : T) (howned : p'.owned = p.owned)
    (hplaces : ∀ heap : Addr → Option (Node Tid T), nextOf heap = nextOf s.heap →
      Places g t heap p') :
    Guarantee t g s (.tau : Lab L T) p' (s.setNode a { nd with mPdata := some v }) := by
  have hown := (hp.1 a).mpr ho
  obtain ⟨nd', hnd', hm⟩ := id hown
  obtain rfl := Option.some.inj (h.symm.trans hnd')
  refine guarantee_of_write (p := p) hI hp.1 (hI.touched_of_owns ha hown) h rfl
    (fun _ => rfl) (.inl hm) (fun b => ?_) (hplaces _) rfl
  rw [howned]
  by_cases hb : b = a
  · simp [hb, hm, ho]
  · simp [hb]

/-- INTERNAL: the mutexes owned after the first of two is released. -/
theorem mem_pair_ne_left {x y b : Addr} (h : x ≠ y) : b ≠ x ∧ b ∈ [x, y] ↔ b ∈ [y] := by
  simp only [List.mem_cons, List.not_mem_nil, or_false]
  constructor
  · rintro ⟨hb, rfl | rfl⟩
    · exact absurd rfl hb
    · rfl
  · rintro rfl
    exact ⟨Ne.symm h, .inr rfl⟩

/-- INTERNAL: the mutexes owned after the second of two is released. -/
theorem mem_pair_ne_right {x y b : Addr} (h : x ≠ y) : b ≠ y ∧ b ∈ [x, y] ↔ b ∈ [x] := by
  rw [← mem_pair_ne_left (Ne.symm h)]
  simp [or_comm]

/-- `for_each` and `for_first_of` keep the assertions. -/
theorem scanStep_guarantee (hI : SharedInv g s) (hp : assertion g t p s)
    (h : ScanStep t p s l p' s') : Guarantee t g s l p' s' := by
  have hfront : beforeBegin ∈ g.nodes := List.mem_cons_self ..
  have hplaces := hp.2
  cases h with
  | @start _ body l b h hm =>
    exact lock_guarantee (p := .scanStart body l) hI hp hfront h hm (fun b => by simp [Pc.owned])
      fun _ _ => hfront
  | @test _ k prev q h =>
    cases hn : q.mNext with
    | none => exact guarantee_of_local hI ⟨hp.1, hplaces⟩ rfl
    | some cur => exact guarantee_of_local hI ⟨hp.1, hplaces, by simp [nextOf, h, hn]⟩ rfl
  | @lock _ k prev cur nd h hm =>
    obtain ⟨hcur, -, -, -⟩ := hI.next hplaces.1 hplaces.2
    exact lock_guarantee (p := .scanLock k prev cur) hI hp hcur h hm
      (fun b => by simp [Pc.owned, or_comm])
      fun _ hn => ⟨hplaces.1, by rw [hn]; exact hplaces.2⟩
  | @unlockPrev _ k prev cur q h =>
    obtain ⟨hcur, -, hcb, hpc⟩ := hI.next hplaces.1 hplaces.2
    exact unlock_guarantee (p := .scanUnlockPrev k prev cur) hI hp hplaces.1
      (by simp [Pc.owned]) h (fun _ => mem_pair_ne_left hpc) fun _ _ => ⟨hcur, hcb⟩
  | @visit _ k cur nd v h hv =>
    refine element_guarantee (p := .scanVisit k cur) hI hp hplaces.1 (by simp [Pc.owned]) h _ ?_
      fun _ _ => ?_
    · unfold afterScanVisit
      split <;> rfl
    · unfold afterScanVisit
      split <;> exact hplaces.1

/-- INTERNAL: taking a node out of the chain. -/
theorem unlink_guarantee (hI : SharedInv g s) {k : Loop L T} {once : Bool} {prev cur : Addr}
    {q : Node Tid T} (hp : assertion g t (.unlink k once prev cur) s)
    (hq : s.heap prev = some q) (hnd : s.heap cur = some nd) :
    Guarantee t g s (.unlink cur : Lab L T) (.unlockCur k once prev cur)
      ((s.setNode cur { nd with mNext := none }).setNode prev { q with mNext := nd.mNext }) := by
  obtain ⟨hown, hprev, hnext⟩ := hp
  obtain ⟨hcur, hmem, hcb, hpc⟩ := hI.next hprev hnext
  have hnodup := (List.nodup_cons.mp hI.linked.nodup).2
  have herase : ∀ x ∈ g.chain.erase cur, x ≠ cur ∧ x ∈ g.chain := fun x hx =>
    hnodup.mem_erase_iff.mp hx
  obtain ⟨q', hq', hqm⟩ := (hown prev).mpr (by simp [Pc.owned])
  obtain ⟨nd', hnd', hcm⟩ := (hown cur).mpr (by simp [Pc.owned])
  obtain rfl := Option.some.inj (hq.symm.trans hq')
  obtain rfl := Option.some.inj (hnd.symm.trans hnd')
  have hprev' : prev ∈ beforeBegin :: g.chain.erase cur := by
    rcases List.mem_cons.mp hprev with rfl | hprev
    · exact List.mem_cons_self ..
    · exact List.mem_cons_of_mem _ (hnodup.mem_erase_iff.mpr ⟨hpc, hprev⟩)
  refine ⟨⟨g.chain.erase cur, Function.update g.priv cur (some t)⟩, ⟨?_, ?_, fun x hx => ?_,
    fun x u hx => ?_, fun x hx => ?_⟩, ⟨fun x => ?_, hprev', by simp⟩, rfl, fun u hu => ?_⟩
  · obtain ⟨ys, zs, hchain, hlast⟩ := hI.linked.split hprev hnext
    have hcy : cur ∉ ys := fun hy => by
      rw [hchain] at hnodup
      exact (List.disjoint_of_nodup_append hnodup hy) (List.mem_cons_self ..)
    have heq : g.chain.erase cur = ys ++ zs := by
      rw [hchain, List.erase_append_right _ hcy, List.erase_cons_head]
    simp only [heq]
    refine Linked.unlink (hchain ▸ hI.linked) ?_ fun x hx hxp => ?_
    · rw [hlast]
      simp [nextOf, hnd]
    · rw [hlast] at hxp
      have hxc : x ≠ cur := by
        rcases List.mem_cons.mp hx with rfl | hx
        · exact Ne.symm hcb
        · exact (herase x (heq ▸ hx)).1
      simp [nextOf, hxp, hxc]
  · by_cases hbp : beforeBegin = prev
    · simp [hbp]
    · simpa [hbp, Ne.symm hcb] using hI.front
  · obtain ⟨hxc, hx⟩ := herase x hx
    obtain ⟨n, v, hn, hv⟩ := hI.element x hx
    by_cases hxp : x = prev
    · subst hxp
      obtain rfl := Option.some.inj (hq.symm.trans hn)
      exact ⟨{ q with mNext := nd.mNext }, v, by simp, hv⟩
    · exact ⟨n, v, by simpa [hxp, hxc] using hn, hv⟩
  · by_cases hxc : x = cur
    · subst hxc
      refine ⟨fun hx => ?_, by simp [Ne.symm hpc]⟩
      rcases List.mem_cons.mp hx with hx | hx
      · exact hcb hx
      · exact (herase x hx).1 rfl
    · replace hx : g.priv x = some u := (Function.update_of_ne hxc ..).symm.trans hx
      obtain ⟨hn, hs⟩ := hI.apart x u hx
      have hxp : x ≠ prev := fun he => hn (he ▸ hprev)
      refine ⟨fun hx => hn ?_, by simpa [hxp, hxc] using hs⟩
      rcases List.mem_cons.mp hx with hx | hx
      · exact List.mem_cons.mpr (.inl hx)
      · exact List.mem_cons_of_mem _ (herase x hx).2
  · have hx' := hI.fresh x hx
    have hxp : x ≠ prev := by
      rintro rfl
      cases hq.symm.trans hx'
    have hxc : x ≠ cur := by
      rintro rfl
      cases hnd.symm.trans hx'
    simpa [hxp, hxc] using hx'
  · simp only [Shared.setNode_heap, owns_update, hown x, Pc.owned, hqm, hcm, List.mem_cons,
      List.not_mem_nil, or_false]
    tauto
  · have hx : ∀ n, some { nd with mNext := none } = some n →
        n.mMut = some t ∨ n.mMut = none := fun n hn => .inl (Option.some.inj hn ▸ hcm)
    have hx' : ∀ n, some { q with mNext := nd.mNext } = some n →
        n.mMut = some t ∨ n.mMut = none := fun n hn => .inl (Option.some.inj hn ▸ hqm)
    have htc := hI.touched_of_owns hcur ⟨nd, hnd, hcm⟩
    have htp := hI.touched_of_owns hprev ⟨q, hq, hqm⟩
    refine ((rely_update htc hx hu).trans (rely_update (htp.update hx) hx' hu)).trans
      (rely_ghost (fun x hx hx' => ?_) (fun x hx => ?_) hu)
    · -- the node that left the chain is `cur`, whose mutex `t` owns
      obtain rfl : x = cur := by
        by_contra hxc
        refine hx' ?_
        rcases List.mem_cons.mp hx with rfl | hx
        · exact List.mem_cons_self ..
        · exact List.mem_cons_of_mem _ (hnodup.mem_erase_iff.mpr ⟨hxc, hx⟩)
      exact ⟨{ nd with mNext := none }, by simp [Ne.symm hpc], hcm⟩
    · refine (Function.update_of_ne ?_ ..).trans hx
      rintro rfl
      exact hI.priv_none hcur u hx

/-- INTERNAL: destroying a node that was taken out of the chain. -/
theorem destroy_guarantee (hI : SharedInv g s) {k : Loop L T} {once : Bool} {prev cur : Addr}
    (hp : assertion g t (.destroy k once prev cur) s) (hnd : s.heap cur = some nd) :
    Guarantee t g s (.destroy cur : Lab L T) (afterDestroy k once prev) (s.freeNode cur) := by
  obtain ⟨hown, hprev, hpriv, c, hc, hm⟩ := hp
  have hcn := (hI.apart cur t hpriv).1
  have hne : ∀ x ∈ g.nodes, x ≠ cur := by
    rintro x hx rfl
    exact hcn hx
  have hpc := hne prev hprev
  have htouched : Touched t g s.heap cur := by
    refine ⟨fun n hn => ?_, fun w hw => Option.some.inj (hw.symm.trans hpriv)⟩
    obtain rfl := Option.some.inj (hc.symm.trans hn)
    exact .inr hm
  refine ⟨⟨g.chain, Function.update g.priv cur none⟩, ⟨?_, ?_, fun x hx => ?_, fun x u hx => ?_,
    fun x hx => ?_⟩, ⟨fun x => ?_, ?_⟩, rfl, fun u hu => ?_⟩
  · exact hI.linked.congr fun x hx => by simp [nextOf, hne x hx]
  · simpa [hne beforeBegin (List.mem_cons_self ..)] using hI.front
  · simpa [hne x (List.mem_cons_of_mem _ hx)] using hI.element x hx
  · have hxc : x ≠ cur := by
      rintro rfl
      simp at hx
    replace hx : g.priv x = some u := (Function.update_of_ne hxc ..).symm.trans hx
    exact ⟨(hI.apart x u hx).1, by simpa [hxc] using (hI.apart x u hx).2⟩
  · have hxc : x ≠ cur := by
      rintro rfl
      cases hnd.symm.trans (hI.fresh x hx)
    simpa [hxc] using hI.fresh x hx
  · rw [Shared.freeNode_heap, owns_free, hown x]
    unfold afterDestroy
    split <;> simp +contextual [Pc.owned, hpc]
  · unfold afterDestroy
    split <;> exact hprev
  · refine (rely_update htouched (fun n hn => by cases hn) hu).trans
      (rely_ghost (fun x hx hx' => absurd hx hx') (fun x hx => ?_) hu)
    refine (Function.update_of_ne ?_ ..).trans hx
    rintro rfl
    exact hu (htouched.priv u hx)

/-- `remove_if` and `remove_first_if` keep the assertions. -/
theorem removeStep_guarantee (hI : SharedInv g s) (hp : assertion g t p s)
    (h : RemoveStep t p s l p' s') : Guarantee t g s l p' s' := by
  have hfront : beforeBegin ∈ g.nodes := List.mem_cons_self ..
  have hplaces := hp.2
  cases h with
  | @start _ q once l b h hm =>
    exact lock_guarantee (p := .removeStart q once l) hI hp hfront h hm (fun b => by simp [Pc.owned])
      fun _ _ => hfront
  | @test _ k once prev q h =>
    cases hn : q.mNext with
    | none => exact guarantee_of_local hI ⟨hp.1, hplaces⟩ rfl
    | some cur => exact guarantee_of_local hI ⟨hp.1, hplaces, by simp [nextOf, h, hn]⟩ rfl
  | @lock _ k once prev cur nd h hm =>
    obtain ⟨hcur, -, -, -⟩ := hI.next hplaces.1 hplaces.2
    exact lock_guarantee (p := .removeLock k once prev cur) hI hp hcur h hm
      (fun b => by simp [Pc.owned, or_comm])
      fun _ hn => ⟨hplaces.1, by rw [hn]; exact hplaces.2⟩
  | @visit _ k once prev cur nd v h hv =>
    obtain ⟨hcur, -, -, -⟩ := hI.next hplaces.1 hplaces.2
    refine element_guarantee (p := .removeVisit k once prev cur) hI hp hcur (by simp [Pc.owned]) h
      _ ?_ fun heap hn => ?_
    · unfold afterRemoveVisit
      split <;> rfl
    · unfold afterRemoveVisit
      split <;> exact ⟨hplaces.1, by rw [hn]; exact hplaces.2⟩
  | @unlockPrev _ k once prev cur q h =>
    obtain ⟨hcur, -, hcb, hpc⟩ := hI.next hplaces.1 hplaces.2
    exact unlock_guarantee (p := .removeUnlockPrev k once prev cur) hI hp hplaces.1
      (by simp [Pc.owned]) h (fun _ => mem_pair_ne_left hpc) fun _ _ => hcur
  | unlink h hnd => exact unlink_guarantee hI hp h hnd
  | @unlockCur _ k once prev cur nd h =>
    -- `cur` is outside the chain and `t`'s own
    have hpc : prev ≠ cur := fun he => (hI.apart cur t hplaces.2).1 (he ▸ hplaces.1)
    obtain ⟨nd', hnd', hm⟩ := (hp.1 cur).mpr (by simp [Pc.owned])
    obtain rfl := Option.some.inj (h.symm.trans hnd')
    refine guarantee_of_write (p := .unlockCur k once prev cur) hI hp.1 ⟨fun n hn => ?_,
      fun u hu => Option.some.inj (hu.symm.trans hplaces.2)⟩ h rfl (fun hd => hd) (.inr rfl)
      (fun b => ?_) (fun _ => ⟨hplaces.1, hplaces.2, nd.unlock, by simp, rfl⟩) rfl
    · obtain rfl := Option.some.inj (h.symm.trans hn)
      exact .inl hm
    · simpa [Node.unlock, Pc.owned] using mem_pair_ne_right (b := b) hpc
  | destroy h => exact destroy_guarantee hI hp h
  | @unwind _ prev cur r nd h =>
    obtain ⟨hcur, -, -, hpc⟩ := hI.next hplaces.1 hplaces.2
    exact unlock_guarantee (p := .unwind prev cur r) hI hp hcur (by simp [Pc.owned]) h
      (fun _ => mem_pair_ne_right hpc) fun _ _ => hplaces.1

/-- Every step keeps the assertions, and changes the chain as its label says. -/
theorem flistStep_guarantee (hI : SharedInv g s) (hp : assertion g t p s)
    (h : FlistStep t p s l p' s') : Guarantee t g s l p' s' := by
  cases h with
  | client h => exact clientStep_guarantee hI hp h
  | scan h => exact scanStep_guarantee hI hp h
  | remove h => exact removeStep_guarantee hI hp h

end Steps

/-! ## Runs -/

/-- The proof outline of the list. -/
def outline (Tid L T : Type) : Outline Tid (Pc L T) (Shared Tid T) (Ghost Tid) :=
  ⟨SharedInv, assertion⟩

/-- The outline holds of a list just constructed. -/
theorem outline_newList : (outline Tid L T).Holds (newList Tid L T) := by
  refine ⟨⟨[], fun _ => none⟩, ⟨?_, ?_, fun a ha => absurd ha List.not_mem_nil,
    fun a t ha => absurd ha (by simp), fun a ha => ?_⟩, fun t => ⟨fun a => ?_, trivial⟩⟩
  · simp [newList, Linked, nextOf]
  · simp [newList]
  · have hne : a ≠ beforeBegin := by
      rintro rfl
      exact absurd ha (by simp [newList, beforeBegin])
    simp [newList, hne]
  · by_cases ha : a = beforeBegin <;> simp [newList, Owns, ha, Pc.owned]

/-- The outline holds in every run. -/
theorem outline_run [DecidableEq Tid] {G : Config Tid (Pc L T) (Shared Tid T) → Tid × Lab L T → Prop}
    {tr : List (Tid × Lab L T)} {c : Config Tid (Pc L T) (Shared Tid T)}
    (h : Run FlistStep G (newList Tid L T) tr c) : (outline Tid L T).Holds c := by
  refine (outline Tid L T).holds_run outline_newList ?_ h
  intro tr c t l p' s' _ _ hstep g hI hp
  obtain ⟨g', hI', hp', -, hrely⟩ := flistStep_guarantee hI hp hstep
  exact ⟨g', hI', hp', fun u hu q hq => assertion_rely (hrely u hu) q hq⟩

end UbuntuProjects.TfgFlist
