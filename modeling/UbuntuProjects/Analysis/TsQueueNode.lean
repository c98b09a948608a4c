import UbuntuProjects.Model.TsQueueOverlap

/-!
# Nodes of `ts_queue` with small elements

An element of at most 8 bytes ends before `m_next`. What is written to its node changes one
member, in memory (`InMemory`) as in `Node`, and linking the node deletes nothing.
-/

set_option autoImplicit false

namespace UbuntuProjects.TsQueue

open Memory
open Memory.Storable (size align bytes ofBytes length_bytes ofBytes_bytes)

variable {Tid Q T : Type} [Storable T]

/-! ## Nodes -/

variable (T) in
@[simp] theorem nextOffset_eq : nextOffset T = 8 := by
  rw [nextOffset, mNextAddr_eq, Nat.zero_add]

variable (T) in
@[simp] theorem initializedOffset_eq : initializedOffset T = 16 := by
  rw [initializedOffset, initializedAddr_eq, Nat.zero_add]

omit [Storable T] in
/-- Only zero bytes are the null pointer. -/
theorem pointerOf_eq_none {bs : List UInt8} : pointerOf bs = none ↔ ofLittleEndian bs = 0 := by
  unfold pointerOf
  split <;> simp [*]

/-- Bytes of the size of the element do not reach the other members. -/
theorem Node.overlay_of_le (hsize : size T ≤ 8) (nd : Node T) {bs : List UInt8}
    (h : bs.length = size T) : nd.overlay bs = nd := by
  have hnext : ¬8 < bs.length := by omega
  have hflag : bs[16]? = none := List.getElem?_eq_none (by omega)
  simp [Node.overlay, hnext, hflag]

/-- The other members lie behind the element. -/
theorem Node.overwriteData_of_le (hsize : size T ≤ 8) (nd : Node T) {off : ℕ} (h : 8 ≤ off)
    (bs : List UInt8) : nd.overwriteData off bs = nd := by
  have hdata : ∀ v : T, ofBytes (overwritten 0 (bytes v) off bs) = some v := by
    intro v
    have hlen := length_bytes v
    rw [overwritten_of_disjoint (.inr (by omega)), ofBytes_bytes]
  simp [Node.overwriteData, hdata]

theorem Node.construct_of_le (hsize : size T ≤ 8) (nd : Node T) (v : T) :
    nd.construct v = { nd with data := some v } := by
  rw [Node.construct, nd.overlay_of_le hsize (length_bytes v)]

theorem Node.setInitialized_of_le (hsize : size T ≤ 8) (nd : Node T) :
    nd.setInitialized = { nd with initialized := true } := by
  rw [Node.setInitialized, nd.overwriteData_of_le hsize (by simp)]

theorem Node.link_of_le (hsize : size T ≤ 8) (nd : Node T) (a : Addr) :
    nd.link a = { nd with mNext := some a } := by
  rw [Node.link, nd.overwriteData_of_le hsize (by simp)]

theorem Node.moveFrom_of_le (hsize : size T ≤ 8) (nd : Node T) (w : T) : nd.moveFrom w = nd :=
  nd.overlay_of_le hsize (length_bytes w)

/-! ## Nodes in memory -/

/-- The node is stored at the address `this`. -/
structure InMemory (nd : Node T) (this : ℕ) (m : Mem) : Prop where
  data : ∀ v, nd.data = some v → readData (size T) (align T) this m = bytes v
  next : Memory.read m (mNextAddr (size T) (align T) this) 8 = pointerBytes nd.mNext
  initialized : readInitialized (size T) (align T) this m = nd.initialized

section InMemory

variable {nd : Node T} {this : ℕ} {m : Mem}

omit [Storable T] in
@[simp] theorem length_pointerBytes (p : Option Addr) : (pointerBytes p).length = 8 :=
  length_littleEndian 8 _

/-- `node()` makes a fresh node. -/
theorem inMemory_fresh (this : ℕ) (m : Mem) :
    InMemory (Node.fresh : Node T) this (newNode (size T) (align T) this m) where
  data v h := by cases h
  next := by
    rw [newNode, writeInitialized, writeNext, mNextAddr_eq, initializedAddr_eq,
      read_write_overwritten, overwritten_of_disjoint (.inr (by simp)), read_write_overwritten,
      overwritten_self (by simp)]
    rfl
  initialized := by
    rw [newNode, readInitialized, writeInitialized, initializedAddr_eq]
    simp [write, Node.fresh]

/-- Constructing an element that ends before the other members. -/
theorem InMemory.construct (hsize : size T ≤ 8) (h : InMemory nd this m) (v : T) :
    InMemory (nd.construct v) this (write m (getDataAddr (size T) (align T) this) (bytes v)) := by
  have hlen := length_bytes v
  rw [nd.construct_of_le hsize, getDataAddr_eq]
  refine ⟨fun w hw => ?_, ?_, ?_⟩
  · obtain rfl := Option.some.inj hw
    rw [readData, getDataAddr_eq, read_write_overwritten, overwritten_self (by simp [hlen])]
  · rw [mNextAddr_eq, read_write_overwritten, overwritten_of_disjoint (.inl (by omega)),
      ← mNextAddr_eq (size T) (align T)]
    exact h.next
  · rw [readInitialized, initializedAddr_eq, write_of_end_le (by omega),
      ← initializedAddr_eq (size T) (align T)]
    exact h.initialized

theorem InMemory.setInitialized (hsize : size T ≤ 8) (h : InMemory nd this m) :
    InMemory nd.setInitialized this (writeInitialized (size T) (align T) this 1 m) := by
  rw [nd.setInitialized_of_le hsize, writeInitialized, initializedAddr_eq]
  refine ⟨fun w hw => ?_, ?_, ?_⟩
  · rw [readData, getDataAddr_eq, read_write_overwritten,
      overwritten_of_disjoint (.inr (by rw [length_read]; omega)),
      ← getDataAddr_eq (size T) (align T) this]
    exact h.data w hw
  · rw [mNextAddr_eq, read_write_overwritten, overwritten_of_disjoint (.inr (by simp)),
      ← mNextAddr_eq (size T) (align T)]
    exact h.next
  · rw [readInitialized, initializedAddr_eq]
    simp [write]

/-- The pointer to a node, as it is passed to `m_next`. -/
theorem littleEndian_pointer {a : Addr} (ha : a + 1 < 2 ^ 64) :
    littleEndian 8 (UInt64.ofNat (a + 1)).toNat = pointerBytes (some a) := by
  rw [UInt64.toNat_ofNat_of_lt' ha]
  rfl

theorem InMemory.link (hsize : size T ≤ 8) (h : InMemory nd this m) {a : Addr}
    (ha : a + 1 < 2 ^ 64) :
    InMemory (nd.link a) this
      (writeNext (size T) (align T) this (UInt64.ofNat (a + 1)) m) := by
  rw [nd.link_of_le hsize, writeNext, mNextAddr_eq, littleEndian_pointer ha]
  refine ⟨fun w hw => ?_, ?_, ?_⟩
  · rw [readData, getDataAddr_eq, read_write_overwritten,
      overwritten_of_disjoint (.inr (by rw [length_read]; omega)),
      ← getDataAddr_eq (size T) (align T) this]
    exact h.data w hw
  · rw [mNextAddr_eq, read_write_overwritten, overwritten_self (by simp)]
  · rw [readInitialized, initializedAddr_eq, write_of_end_le (by simp),
      ← initializedAddr_eq (size T) (align T)]
    exact h.initialized

/-- What `emplace` does to the bytes of a fresh node is what it does to the node. -/
theorem InMemory.emplace (hsize : size T ≤ 8) (h : InMemory (Node.fresh : Node T) this m) (v : T)
    {a : Addr} (ha : a + 1 < 2 ^ 64) :
    ∃ m', emplaceWrites (align T) this (bytes v) (UInt64.ofNat (a + 1)) m = some m' ∧
      InMemory (((Node.fresh.construct v).setInitialized).link a) this m' := by
  have hfilled := (h.construct hsize v).setInitialized hsize
  have hlink := hfilled.link hsize ha
  have hwrites : writeInitialized (size T) (align T) this 1
      (write m (getDataAddr (size T) (align T) this) (bytes v)) =
        constructData (align T) this (bytes v) m := by
    rw [constructData, length_bytes]
  rw [hwrites] at hfilled hlink
  have hnone : (Node.fresh.construct v).setInitialized.mNext = none := by
    rw [Node.setInitialized_of_le hsize, Node.construct_of_le hsize]
    rfl
  have hnull : readNext (size T) (align T) this (constructData (align T) this (bytes v) m) = 0 := by
    rw [readNext, hfilled.next, hnone]
    decide
  exact ⟨_, by rw [emplaceWrites, length_bytes, linkNext, if_pos hnull], hlink⟩

end InMemory

/-! ## Links -/

section Links

variable {heap heap' : Addr → Option (Node T)} {a next : Addr} {nd : Node T}

/-- Linking a node without a successor deletes nothing. -/
theorem links_iff (hnd : heap a = some nd) (hnull : nd.mNext = none) :
    Links heap a next heap' ↔ heap' = Function.update heap a (some (nd.link next)) := by
  constructor
  · rintro ⟨hnd', hdel⟩
    obtain rfl := Option.some.inj (hnd.symm.trans hnd')
    rw [hnull] at hdel
    cases hdel
    rfl
  · rintro rfl
    exact .link hnd (hnull.symm ▸ .null _)

omit [Storable T] in
/-- Deleting a fresh node deletes only that one. -/
theorem deletes_fresh_iff (hnd : heap a = some .fresh) :
    Deletes heap (some a) heap' ↔ heap' = Function.update heap a none := by
  constructor
  · intro h
    cases h with
    | node hnd' hrest =>
      obtain rfl := Option.some.inj (hnd.symm.trans hnd')
      cases hrest
      rfl
  · rintro rfl
    exact .node hnd (.null _)

omit [Storable T] in
/-- Writing a node twice. -/
theorem setNode_setNode (s : Shared Tid Q T) (a : Addr) (nd nd' : Node T) :
    (s.setNode a nd).setNode a nd' = s.setNode a nd' := by
  unfold Shared.setNode
  rw [Function.update_idem]

omit [Storable T] in
/-- Writing a node as it is. -/
theorem setNode_self {s : Shared Tid Q T} (hnd : s.heap a = some nd) : s.setNode a nd = s := by
  rw [Shared.setNode, ← hnd, Function.update_eq_self]

/-- Linking a node to a new one. -/
theorem links_new (hsize : size T ≤ 8) {s : Shared Tid Q T} (hnd : s.heap a = some nd)
    (hnull : nd.mNext = none) (hnext : s.heap next = none) :
    Links (s.setNode next .fresh).heap a next heap' ↔
      heap' = ((s.setNode a { nd with mNext := some next }).setNode next .fresh).heap := by
  have hne : a ≠ next := by
    rintro rfl
    rw [hnd] at hnext
    cases hnext
  have hlast : (s.setNode next .fresh).heap a = some nd := by
    rw [Shared.setNode_heap, Function.update_of_ne hne, hnd]
  rw [links_iff hlast hnull, nd.link_of_le hsize, Shared.setNode_heap,
    Function.update_comm hne.symm]
  rfl

end Links

/-! ## An element that does not fit -/

/-- Two integers of 64 bits: the second one lies over `m_next`. -/
structure LongPair where
  a : UInt64
  b : UInt64
  deriving DecidableEq

instance : Storable LongPair where
  size := 16
  align := 8
  bytes v := littleEndian 8 v.a.toNat ++ littleEndian 8 v.b.toNat
  ofBytes bs :=
    some ⟨UInt64.ofNat (ofLittleEndian (bs.take 8)), UInt64.ofNat (ofLittleEndian (bs.drop 8))⟩
  length_bytes v := by simp
  ofBytes_bytes v := by
    rw [List.take_left' (length_littleEndian 8 _), List.drop_left' (length_littleEndian 8 _),
      UInt64.ofNat_littleEndian, UInt64.ofNat_littleEndian]

end UbuntuProjects.TsQueue
