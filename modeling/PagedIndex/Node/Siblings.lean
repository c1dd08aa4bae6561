import PagedIndex.Node.Edit

/-! # Operations on neighbours

Splitting moves the upper half of a node into a fresh one.  Merging and borrowing move slots
between two neighbours under a common parent: the separator of the pair in the parent goes down
with the child that moves, and the key that loses its place goes up.

`Split`, `Pair` and `Family` are the groups of nodes that take part. -/

namespace PagedIndex

/-- A node and the fresh node that takes half of its slots. -/
structure Split (K : Type) where
  node : Node K
  recipient : Node K

/-- A node and its parent. -/
structure Pair (K : Type) where
  node : Node K
  parent : Node K

/-- A node, the neighbour that receives slots from it, and their parent. -/
structure Family (K : Type) where
  node : Node K
  recipient : Node K
  parent : Node K

variable {K : Type}

namespace Split

abbrev Edit (K : Type) := Action Fault (Split K)

def onNode {α : Type} : Node.Edit K α → Edit K α :=
  Action.zoom Split.node fun s v => { s with node := v }

def onRecipient {α : Type} : Node.Edit K α → Edit K α :=
  Action.zoom Split.recipient fun s v => { s with recipient := v }

/-- Move the upper half of the slots into the recipient.  Its first key is the separator of the
two nodes. -/
def moveHalf [Key K] : Edit K Unit := do
  let v := (← get).node
  let moved := v.size / 2
  let kept := v.size - moved
  let items ← v.readSlots kept v.size
  onRecipient (Node.Edit.fill items moved)
  onNode (Node.Edit.resize kept)

end Split

namespace Pair

abbrev Edit (K : Type) := Action Fault (Pair K)

def onNode {α : Type} : Node.Edit K α → Edit K α :=
  Action.zoom Pair.node fun s v => { s with node := v }

def onParent {α : Type} : Node.Edit K α → Edit K α :=
  Action.zoom Pair.parent fun s v => { s with parent := v }

variable [Key K]

/-- Take over the first child of the right neighbour.  The child arrives under the separator of
the two nodes, and `key` replaces that separator. -/
def takeLast (key : K) (id : PageId) : Edit K Unit := do
  let ⟨v, parent⟩ ← get
  require (v.size < v.maxSize) (Fault.nodeFull v.pageId)
  require (parent.pageId = v.parentId) Fault.notFamily
  let i ← parent.childIndex v.pageId
  require (i + 1 < parent.size) (Fault.noRightSibling v.pageId parent.pageId)
  let separator ← parent.readKey (i + 1)
  onNode do
    Node.Edit.putKey v.size separator
    Node.Edit.putChild v.size id
    Node.Edit.resize (v.size + 1)
  onParent (Node.Edit.putKey (i + 1) key)

/-- Take over the last child of the left neighbour, where the parent points at this node from
slot `i`.  The old first child moves under the separator in that slot, and `key` replaces it. -/
def takeFirst (key : K) (id : PageId) (i : Nat) : Edit K Unit := do
  let ⟨v, parent⟩ ← get
  require (v.size < v.maxSize) (Fault.nodeFull v.pageId)
  parent.requireSlot i
  require (parent.pageId = v.parentId) Fault.notFamily
  require ((← parent.childAt i) = v.pageId) Fault.notFamily
  let separator ← parent.readKey i
  onParent (Node.Edit.putKey i key)
  onNode do
    Node.Edit.shift 0 v.size 1
    Node.Edit.putKey 1 separator
    Node.Edit.putChild 0 id
    Node.Edit.resize (v.size + 1)

end Pair

namespace Family

abbrev Edit (K : Type) := Action Fault (Family K)

def onNode {α : Type} : Node.Edit K α → Edit K α :=
  Action.zoom Family.node fun s v => { s with node := v }

def onRecipient {α : Type} : Node.Edit K α → Edit K α :=
  Action.zoom Family.recipient fun s v => { s with recipient := v }

def onParent {α : Type} : Node.Edit K α → Edit K α :=
  Action.zoom Family.parent fun s v => { s with parent := v }

/-- Act on the recipient and the parent. -/
def onReceivers {α : Type} : Pair.Edit K α → Edit K α :=
  Action.zoom (fun s => ⟨s.recipient, s.parent⟩) fun s q =>
    { s with recipient := q.node, parent := q.parent }

variable [Key K]

/-- Append all slots but the first to the left neighbour, and drop the slot `i` of the parent,
which points at this node. -/
def mergeInto (i : Nat) : Edit K Unit := do
  let ⟨v, recipient, parent⟩ ← get
  require (v.size ≠ 0) Fault.outOfRange
  let count := v.size - 1
  require (recipient.size + count ≤ recipient.maxSize)
    (Fault.mergeOverflow count recipient.pageId recipient.size recipient.maxSize)
  parent.requireSlot i
  require (parent.pageId = v.parentId) Fault.notFamily
  require ((← parent.childAt i) = v.pageId) Fault.notFamily
  let items ← v.readSlots 1 v.size
  onRecipient (Node.Edit.append items count)
  onParent (Node.Edit.erase i)
  onNode (Node.Edit.resize 1)

/-- Give the first child to the left neighbour; the first separator becomes theirs. -/
def lendFirst : Edit K Unit := do
  let v := (← get).node
  require (1 < v.size) (Fault.nothingToLend v.pageId)
  let key ← v.readKey 1
  let id ← v.readChild 0
  onReceivers (Pair.takeLast key id)
  onNode do
    Node.Edit.putChild 0 (← (← get).readChild 1)
    Node.Edit.erase 1

/-- Give the last child to the right neighbour, at which the parent points from slot `i`; the
last separator becomes theirs. -/
def lendLast (i : Nat) : Edit K Unit := do
  let v := (← get).node
  require (1 < v.size) (Fault.nothingToLend v.pageId)
  let key ← v.readKey (v.size - 1)
  let id ← v.readChild (v.size - 1)
  onReceivers (Pair.takeFirst key id i)
  onNode (Node.Edit.resize (v.size - 1))

end Family

end PagedIndex
