import PagedIndex.Node.Lookup

/-! # Edits of one node

An `Edit K` is an action on a node.  Each edit checks its contract and then changes slots in
place: slots move as raw bytes, and bytes behind the last slot are left as they are.  On the list
of slots, `insertAfter` inserts, `erase` removes, `append` appends and `fill` replaces. -/

namespace PagedIndex

/-- Actions on a node with keys of type `K`. -/
abbrev Node.Edit (K : Type) := Action Fault (Node K)

namespace Node.Edit

variable {K : Type} [Key K]

/-! ### Bytes of slots -/

/-- Store bytes that lie in the page. -/
def put (start : Nat) (bs : List UInt8) : Edit K Unit := do
  require (Buffer.spans pageSize start bs.length) Fault.outOfBounds
  modify fun v => ⟨v.page.write start bs⟩

/-- Store the key half of slot `i`. -/
def putKey (i : Nat) (key : K) : Edit K Unit := put (slotStart K i) (Key.encode key)

/-- Store the child half of slot `i`. -/
def putChild (i : Nat) (id : PageId) : Edit K Unit :=
  put (childStart K i) id.encode

/-- Copy the slots from `start` up to `stop` to the slots from `dest` on. -/
def shift (start stop dest : Nat) : Edit K Unit := do
  put (slotStart K dest) (← (← get).readSlots start stop)

def resize (size : Nat) : Edit K Unit := modify (·.setSize size)

/-! ### Single slots -/

/-- Replace the key of an occupied slot. -/
def setKey (i : Nat) (key : K) : Edit K Unit := do
  (← get).requireSlot i
  putKey i key

/-- Replace the child of an occupied slot. -/
def setChild (i : Nat) (id : PageId) : Edit K Unit := do
  (← get).requireSlot i
  putChild i id

/-- Record another parent. -/
def setParent (parent : PageId) : Edit K Unit := modify (·.setParent parent)

/-- Remove slot `i`; later slots move down. -/
def erase (i : Nat) : Edit K Unit := do
  let v ← get
  v.requireSlot i
  shift (i + 1) v.size i
  resize (v.size - 1)

/-- Insert a slot behind the first one that points at `old`; later slots move up.  The node may
end one slot past its threshold.  Answers the new size. -/
def insertAfter (old : PageId) (key : K) (id : PageId) : Edit K Nat := do
  let v ← get
  require (v.size ≤ v.maxSize) (Fault.insertOverflow v.pageId)
  let i ← v.childIndex old
  require (i < v.size) (Fault.childMissing old v.pageId)
  shift (i + 1) v.size (i + 2)
  putKey (i + 1) key
  putChild (i + 1) id
  resize (v.size + 1)
  return v.size + 1

/-! ### Roots -/

/-- Make a fresh node the root above a split: `old` on the left of `key`, `id` on the right. -/
def plant (old : PageId) (key : K) (id : PageId) : Edit K Unit := do
  let v ← get
  require (v.size = 1) (Fault.rootNotEmpty v.pageId)
  putChild 0 old
  putKey 1 key
  putChild 1 id
  resize 2

/-- Drop the only separator of a node and answer its first child. -/
def collapse : Edit K PageId := do
  let v ← get
  require (v.size = 2) (Fault.notCollapsible v.pageId v.size)
  resize 1
  (← get).readChild 0

/-! ### Runs of slots -/

/-- Replace the slots of a fresh node by `count` slots given as bytes. -/
def fill (items : List UInt8) (count : Nat) : Edit K Unit := do
  let v ← get
  require (v.size = 1) (Fault.splitTargetNotEmpty v.pageId)
  require (count ≤ v.maxSize) (Fault.fillOverflow count v.pageId)
  require (items.length = count * slotWidth K) Fault.lengthMismatch
  put (slotStart K 0) items
  resize count

/-- Append `count` slots given as bytes. -/
def append (items : List UInt8) (count : Nat) : Edit K Unit := do
  let v ← get
  require (v.size + count < UInt64.size) Fault.outOfRange
  require (v.size + count ≤ v.maxSize) (Fault.appendOverflow count v.pageId v.size)
  require (items.length = count * slotWidth K) Fault.lengthMismatch
  put (slotStart K v.size) items
  resize (v.size + count)

end Node.Edit

end PagedIndex
