import PagedIndex.Action
import PagedIndex.Page.Basic

/-! # Node headers

Behind the page header, every node of the tree records its occupancy and its place:

    offset  width  field
        13      4  size, the occupied slots
        17      4  maxSize, the slots at which the node splits
        21      4  pageId
        25      4  parentId, invalid on a root

Slots follow from offset `nodeStart` on. -/

namespace PagedIndex

structure NodeHeader where
  size : UInt32
  maxSize : UInt32
  pageId : PageId
  parentId : PageId
deriving DecidableEq, Repr

namespace NodeHeader

/-- Width of the header in bytes. -/
def width : Nat := 16

def sizeAt : Nat := 13

def maxSizeAt : Nat := 17

def pageIdAt : Nat := 21

def parentIdAt : Nat := 25

variable {n : Nat}

def ofBuffer (b : Buffer n) : NodeHeader where
  size := b.u32 sizeAt
  maxSize := b.u32 maxSizeAt
  pageId := ⟨b.u32 pageIdAt⟩
  parentId := ⟨b.u32 parentIdAt⟩

def store (h : NodeHeader) (b : Buffer n) : Buffer n :=
  (((b.setU32 sizeAt h.size).setU32 maxSizeAt h.maxSize).setU32 pageIdAt h.pageId.val).setU32
    parentIdAt h.parentId.val

/-- The header of a buffer long enough to hold one. -/
def ofBuffer? (b : Buffer n) : Except Fault NodeHeader :=
  if Buffer.spans n sizeAt width then .ok (ofBuffer b) else .error .outOfBounds

/-- Store one field, if the buffer reaches so far. -/
def storeField (start : Nat) (x : UInt32) : Action Fault (Buffer n) Unit := do
  require (Buffer.spans n start 4) Fault.outOfBounds
  modify (·.setU32 start x)

/-- Store the header field by field, up to the first one that the buffer does not reach. -/
def storeFields (h : NodeHeader) : Action Fault (Buffer n) Unit := do
  storeField sizeAt h.size
  storeField maxSizeAt h.maxSize
  storeField pageIdAt h.pageId.val
  storeField parentIdAt h.parentId.val

end NodeHeader

/-- Bytes in front of the first slot of a node. -/
def nodeStart : Nat := PageHeader.width + NodeHeader.width

/-- Slots of a given width that fit behind the headers of a node. -/
def slotCapacity (slotWidth : Nat) : Nat := (pageSize - nodeStart) / slotWidth

/-- The capacity for a width that may be zero. -/
def slotCapacity? (slotWidth : Nat) : Except Fault Nat := do
  require (slotWidth ≠ 0) Fault.divisionByZero
  return slotCapacity slotWidth

end PagedIndex
