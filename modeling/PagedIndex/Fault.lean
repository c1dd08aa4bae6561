import PagedIndex.PageId

/-! # Broken contracts

A `Fault` is the cause of an operation that was called against its contract: the caller, not the
data, is wrong.  Faults that the library words itself have a `message`; the others report that a
machine limit was hit (an access outside a buffer, a number out of its range) or that an unnamed
consistency condition failed, and have none. -/

namespace PagedIndex

inductive Fault where
  /-- A split threshold outside the range that the slot width allows. -/
  | maxSizeOutside (maxSize capacity slotWidth : Nat)
  /-- A search in a node without separators. -/
  | noKeys (node : PageId)
  | slotOutOfRange (slot : Nat) (node : PageId) (size : Nat)
  /-- A new root that already has separators. -/
  | rootNotEmpty (node : PageId)
  /-- An insertion into a node past its threshold. -/
  | insertOverflow (node : PageId)
  | childMissing (child node : PageId)
  /-- A split into a node that already has separators. -/
  | splitTargetNotEmpty (node : PageId)
  | fillOverflow (count : Nat) (node : PageId)
  | notCollapsible (node : PageId) (size : Nat)
  | mergeOverflow (count : Nat) (node : PageId) (size maxSize : Nat)
  | appendOverflow (count : Nat) (node : PageId) (size : Nat)
  | nothingToLend (node : PageId)
  | nodeFull (node : PageId)
  | noRightSibling (node parent : PageId)
  /-- A byte-string key too narrow for a 64-bit integer. -/
  | keyTooNarrow (width : Nat)
  /-- A buffer shorter than a page header. -/
  | shortHeader
  | pinUnderflow
  /-- A pool without frames. -/
  | emptyPool
  /-- An access outside a buffer. -/
  | outOfBounds
  /-- A number past the range of its type. -/
  | outOfRange
  | divisionByZero
  /-- A run of slots whose length is not that of the stated count. -/
  | lengthMismatch
  /-- A parent and a child that do not name each other. -/
  | notFamily
deriving DecidableEq, Repr

namespace Fault

/-- The wording of a fault, for those that have one. -/
def message : Fault → Option String
  | maxSizeOutside maxSize capacity slotWidth =>
    some s!"max_size {maxSize} outside [2, {capacity}) for {slotWidth}-byte slots"
  | noKeys node => some s!"lookup on internal page {node.text} with no keys"
  | slotOutOfRange slot node size =>
    some s!"slot {slot} out of range for internal page {node.text} of size {size}"
  | rootNotEmpty node => some s!"new root {node.text} is not empty"
  | insertOverflow node => some s!"insert into overflowing internal page {node.text}"
  | childMissing child node =>
    some s!"child {child.text} not found in internal page {node.text}"
  | splitTargetNotEmpty node => some s!"split recipient {node.text} is not empty"
  | fillOverflow count node => some s!"{count} slots overflow internal page {node.text}"
  | notCollapsible node size =>
    some s!"internal page {node.text} has {size} slots, cannot collapse"
  | mergeOverflow count node size maxSize =>
    some (s!"merging {count} slots into internal page {node.text} of size {size} " ++
      s!"exceeds max_size {maxSize}")
  | appendOverflow count node size =>
    some s!"{count} slots overflow internal page {node.text} of size {size}"
  | nothingToLend node => some s!"internal page {node.text} has no slot to lend"
  | nodeFull node => some s!"internal page {node.text} is full"
  | noRightSibling node parent =>
    some s!"internal page {node.text} has no right sibling under parent {parent.text}"
  | keyTooNarrow width => some s!"GenericKey<{width}> cannot hold an i64"
  | shortHeader => some "buffer too small for PageHeader"
  | pinUnderflow => some "pin count underflow"
  | emptyPool => some "pool_size must be > 0"
  | outOfBounds | outOfRange | divisionByZero | lengthMismatch | notFamily => none

end Fault

end PagedIndex
