import UbuntuProjects.Memory.Bytes

/-!
# A node of `ts_queue` in memory

The members of `ts_queue::node` for an element type of size `n` and alignment `a`, laid
out as on x86-64: `m_storage` is an object of the class `std::aligned_storage<n,a>`
itself, an empty class of size and alignment 1, whatever `n` and `a` are. The element is
constructed at the address of `m_storage`.
-/

set_option autoImplicit false

namespace UbuntuProjects.TsQueue

open Memory

/-- `std::aligned_storage<n,a>`: an empty class. -/
def alignedStorage (_n _a : ℕ) : Member := ⟨1, 1⟩

/-- `std::unique_ptr<node>` -/
def uniquePtr : Member := ⟨8, 8⟩

/-- `bool` -/
def boolMember : Member := ⟨1, 1⟩

/-- The members of `node` in declaration order.
SRCLINE: threadsafe_queue.h:30-32 -/
def nodeMembers (n a : ℕ) : List Member := [alignedStorage n a, uniquePtr, boolMember]

/-- The offset of the member with the given index. -/
def nodeOffset (n a i : ℕ) : ℕ := ((offsets 0 (nodeMembers n a))[i]?).getD 0

/-- The address of `m_storage`, reinterpreted as that of the element.
SRCLINE: threadsafe_queue.h:46-48 -/
def getDataAddr (n a this : ℕ) : ℕ := this + nodeOffset n a 0

def mNextAddr (n a this : ℕ) : ℕ := this + nodeOffset n a 1

def initializedAddr (n a this : ℕ) : ℕ := this + nodeOffset n a 2

/-- The `n` bytes of the element, as `pop_unprotected_unchecked` reads them.
SRCLINE: threadsafe_queue.h:87-90 -/
def readData (n a this : ℕ) (m : Mem) : List UInt8 := read m (getDataAddr n a this) n

def readNext (n a this : ℕ) (m : Mem) : UInt64 :=
  UInt64.ofNat (ofLittleEndian (read m (mNextAddr n a this) 8))

def readInitialized (n a this : ℕ) (m : Mem) : Bool :=
  m (initializedAddr n a this) != 0

def writeNext (n a this : ℕ) (p : UInt64) (m : Mem) : Mem :=
  write m (mNextAddr n a this) (littleEndian 8 p.toNat)

def writeInitialized (n a this : ℕ) (b : UInt8) (m : Mem) : Mem :=
  write m (initializedAddr n a this) [b]

/-- `node()`
SRCLINE: threadsafe_queue.h:34 -/
def newNode (n a this : ℕ) (m : Mem) : Mem :=
  writeInitialized n a this 0 (writeNext n a this 0 m)

/-- Constructing an element with the bytes `v`, then `initialized=true`.
SRCLINE: threadsafe_queue.h:50-55 -/
def constructData (a this : ℕ) (v : List UInt8) (m : Mem) : Mem :=
  writeInitialized v.length a this 1 (write m (getDataAddr v.length a this) v)

/-- Assigning to `m_next`: the pointer is written and the old one deleted. In a node that
has no successor yet a pointer other than null is made of bytes of the element, and deleting
it is undefined.
SRCLINE: threadsafe_queue.h:313 -/
def linkNext (n a this : ℕ) (p : UInt64) (m : Mem) : Option Mem :=
  if readNext n a this m = 0 then some (writeNext n a this p m) else none

/-- What `emplace` does to the old last node.
SRCLINE: threadsafe_queue.h:312-313 -/
def emplaceWrites (a mTail : ℕ) (v : List UInt8) (pnewTail : UInt64) (m : Mem) : Option Mem :=
  linkNext v.length a mTail pnewTail (constructData a mTail v m)

/-! ## Offsets -/

/-- The layout does not depend on the element type. -/
theorem offsets_nodeMembers (n a : ℕ) : offsets 0 (nodeMembers n a) = [0, 8, 16] := by
  simp [offsets, nodeMembers, alignedStorage, uniquePtr, boolMember, alignUp]

theorem getDataAddr_eq (n a this : ℕ) : getDataAddr n a this = this := by
  simp [getDataAddr, nodeOffset, offsets_nodeMembers]

theorem mNextAddr_eq (n a this : ℕ) : mNextAddr n a this = this + 8 := by
  simp [mNextAddr, nodeOffset, offsets_nodeMembers]

theorem initializedAddr_eq (n a this : ℕ) : initializedAddr n a this = this + 16 := by
  simp [initializedAddr, nodeOffset, offsets_nodeMembers]

end UbuntuProjects.TsQueue
