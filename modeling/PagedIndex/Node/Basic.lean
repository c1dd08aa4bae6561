import PagedIndex.Error
import PagedIndex.Key.Basic
import PagedIndex.Node.Header

/-! # Internal nodes

An internal node is a page read as a header and an array of slots.  Slot `i` holds a key and the
identifier of a child; the key of slot `0` is a placeholder, and for `i ≥ 1` the child of slot `i`
covers the search keys from key `i` up to key `i + 1`.

`Node K` is such a view of a page, for keys of type `K`.  `Node.ofPage` accepts a page whose
header describes a node, `Node.format` makes a page into a node with one slot.  One slot behind
the threshold `maxSize` stays unused, so that an insertion may go one past the threshold before
the node is split.

Since any bytes can be read as a node, `readKey` and `readChild` refuse slots that lie outside the
page; `Node.Sound` is the condition under which they never do. -/

namespace PagedIndex

/-- A page seen as an internal node with keys of type `K`. -/
@[ext]
structure Node (K : Type) where
  page : Page
deriving DecidableEq

namespace Node

/-! ### Geometry -/

section Geometry

variable (K : Type) [Key K]

/-- Bytes taken by one slot. -/
def slotWidth : Nat := Key.width K + PageId.width

/-- Slots that fit in a page. -/
def capacity : Nat := slotCapacity (slotWidth K)

/-- The largest threshold, one below the capacity. -/
def defaultMaxSize : Nat := capacity K - 1

/-- Offset of slot `i`. -/
def slotStart (i : Nat) : Nat := nodeStart + i * slotWidth K

/-- Offset of the child half of slot `i`. -/
def childStart (i : Nat) : Nat := slotStart K i + Key.width K

end Geometry

variable {K : Type}

/-! ### Header -/

def header (v : Node K) : NodeHeader := NodeHeader.ofBuffer v.page

/-- Occupied slots, the placeholder included. -/
def size (v : Node K) : Nat := (v.page.u32 NodeHeader.sizeAt).toNat

/-- Slots at which the node splits. -/
def maxSize (v : Node K) : Nat := (v.page.u32 NodeHeader.maxSizeAt).toNat

/-- Fewest slots that a node other than the root may hold. -/
def minSize (v : Node K) : Nat := (v.maxSize + 1) / 2

def pageId (v : Node K) : PageId := ⟨v.page.u32 NodeHeader.pageIdAt⟩

def parentId (v : Node K) : PageId := ⟨v.page.u32 NodeHeader.parentIdAt⟩

def isRoot (v : Node K) : Bool := !v.parentId.isValid

/-- One slot past the threshold. -/
def isOverflowing (v : Node K) : Bool := v.maxSize < v.size

def setSize (v : Node K) (size : Nat) : Node K :=
  ⟨v.page.setU32 NodeHeader.sizeAt (UInt32.ofNat size)⟩

def setParent (v : Node K) (parent : PageId) : Node K :=
  ⟨v.page.setU32 NodeHeader.parentIdAt parent.val⟩

/-! ### Slots -/

variable [Key K]

/-- The key bytes of slot `i`, decoded. -/
def key (v : Node K) (i : Nat) : K := Key.decode (v.page.read (slotStart K i) (Key.width K))

/-- The child of slot `i`. -/
def child (v : Node K) (i : Nat) : PageId := ⟨v.page.u32 (childStart K i)⟩

/-- The slots as a list of keys and children. -/
def slots (v : Node K) : List (K × PageId) :=
  (List.range v.size).map fun i => (v.key i, v.child i)

/-- The key of a slot whose key half lies in the page. -/
def readKey (v : Node K) (i : Nat) : Except Fault K :=
  if Buffer.spans pageSize (slotStart K i) (Key.width K) then .ok (v.key i)
  else .error .outOfBounds

/-- The child of a slot that lies in the page. -/
def readChild (v : Node K) (i : Nat) : Except Fault PageId :=
  if Buffer.spans pageSize (childStart K i) PageId.width then .ok (v.child i)
  else .error .outOfBounds

/-- The bytes of the slots from `start` up to `stop`, a run that ends in the page and not before
it starts. -/
def readSlots (v : Node K) (start stop : Nat) : Except Fault (List UInt8) :=
  if start ≤ stop ∧ slotStart K stop ≤ pageSize then
    .ok (v.page.read (slotStart K start) (slotStart K stop - slotStart K start))
  else .error .outOfBounds

/-- Slot `i` is occupied. -/
def requireSlot (v : Node K) (i : Nat) : Except Fault Unit :=
  require (i < v.size) (.slotOutOfRange i v.pageId v.size)

/-- The key of an occupied slot. -/
def keyAt (v : Node K) (i : Nat) : Except Fault K := do
  v.requireSlot i
  v.readKey i

/-- The child of an occupied slot. -/
def childAt (v : Node K) (i : Nat) : Except Fault PageId := do
  v.requireSlot i
  v.readChild i

/-- All slots in order, the placeholder first. -/
def entries (v : Node K) : Except Fault (List (K × PageId)) :=
  gather (fun i => do return (← v.readKey i, ← v.readChild i)) 0 v.size

/-- The header leaves every slot, and one more past the threshold, inside the page. -/
structure Sound (v : Node K) : Prop where
  two_le_maxSize : 2 ≤ v.maxSize
  maxSize_lt : v.maxSize < capacity K
  size_pos : 1 ≤ v.size
  size_le : v.size ≤ v.maxSize + 1

/-! ### Opening and formatting -/

/-- Open a page as a node; the kind is looked at first, then the threshold, then the size. -/
def ofPage (p : Page) : Except Error (Node K) := do
  let v : Node K := ⟨p⟩
  require (p.kind = .inner) (Error.wrongKind v.pageId .inner p.kind)
  require (2 ≤ v.maxSize ∧ v.maxSize < capacity K)
    (Error.corrupted v.pageId (.maxSizeOutside v.maxSize (capacity K)))
  require (1 ≤ v.size ∧ v.size ≤ v.maxSize + 1)
    (Error.corrupted v.pageId (.sizeOutside v.size (v.maxSize + 1)))
  return v

/-- Make a page into a node whose only slot is the placeholder, without a child. -/
def format (p : Page) (pageId parentId : PageId) (maxSize : Nat) : Except Fault (Node K) := do
  require (2 ≤ maxSize ∧ maxSize < capacity K)
    (Fault.maxSizeOutside maxSize (capacity K) (slotWidth K))
  let p := p.setHeader (.fresh .inner)
  let p := NodeHeader.store ⟨1, UInt32.ofNat maxSize, pageId, parentId⟩ p
  let p := p.write (slotStart K 0) (List.replicate (slotWidth K) 0)
  return ⟨p.setU32 (childStart K 0) PageId.invalid.val⟩

end Node

end PagedIndex
