import PagedIndex.Node.Siblings
import PagedIndex.Proofs.Node.Routing

/-! # Two levels of a tree

A `Tree` is a parent with its children from left to right.  Its steps are the ways in which a
caller keeps such a family in shape: a slot is inserted where its key leads, with a split when
the child overflows, a child gives a slot to a neighbour, or a child is merged into its left
neighbour.  `Tree.perform` composes each step of the operations on nodes, and `Tree.Ready` is
what those operations ask of the family.

`Tree.inorder` is the family as one list of slots: the first slot of a child counts under the
key of the parent that leads to it. -/

namespace PagedIndex

/-- A parent and its children. -/
structure Tree (K : Type) where
  parent : Node K
  children : List (Node K)

namespace Tree

variable {K α : Type}

/-- Actions on a parent with its children. -/
abbrev Edit (K : Type) := Action Fault (Tree K)

/-- Child `i`. -/
def child (t : Tree K) (i : Nat) : Node K := t.children.getD i ⟨Page.zero⟩

/-- The pages of the family. -/
def pageIds (t : Tree K) : List PageId := t.parent.pageId :: t.children.map Node.pageId

def onParent : Node.Edit K α → Edit K α :=
  Action.zoom Tree.parent fun t v => { t with parent := v }

def onChild (i : Nat) : Node.Edit K α → Edit K α :=
  Action.zoom (fun t => t.child i) fun t v => { t with children := t.children.set i v }

def onSplit (node recipient : Nat) : Split.Edit K α → Edit K α :=
  Action.zoom (fun t => ⟨t.child node, t.child recipient⟩) fun t s =>
    { t with children := (t.children.set node s.node).set recipient s.recipient }

def onFamily (node recipient : Nat) : Family.Edit K α → Edit K α :=
  Action.zoom (fun t => ⟨t.child node, t.child recipient, t.parent⟩) fun t s =>
    ⟨s.parent, (t.children.set node s.node).set recipient s.recipient⟩

/-! ### In order -/

/-- Slots whose first one counts under another key. -/
def hang (key : K) : List (K × PageId) → List (K × PageId)
  | [] => []
  | e :: l => (key, e.2) :: l

variable [Key K]

/-- The slots of the children one after the other, each child under its slot of the parent. -/
def row (slots : List (K × PageId)) (children : List (Node K)) : List (K × PageId) :=
  (List.zipWith (fun e c => hang e.1 c.slots) slots children).flatten

/-- All slots of the children in order. -/
def inorder (t : Tree K) : List (K × PageId) := row t.parent.slots t.children

/-! ### Searching -/

variable (order : K → K → Ordering)

/-- The child that the probe leads to, and the child of that child. -/
def locate (t : Tree K) (probe : K) : Except Fault (Nat × PageId) := do
  let id ← t.parent.seek order probe
  let i := t.children.findIdx fun c => c.pageId = id
  return (i, ← (t.child i).seek order probe)

/-- The child below the children that the probe leads to. -/
def lookup (t : Tree K) (probe : K) : Except Fault PageId := Prod.snd <$> t.locate order probe

/-! ### Steps -/

/-- Split child `i`: its upper half goes to a page that is formatted as the next child. -/
def split (i : Nat) (page : Page) (pageId : PageId) : Edit K Unit := do
  let t ← get
  let fresh ← Node.format page pageId t.parent.pageId t.parent.maxSize
  modify fun t => { t with children := t.children.insertIdx (i + 1) fresh }
  onSplit i (i + 1) Split.moveHalf
  let key ← ((← get).child (i + 1)).keyAt 0
  discard (onParent (Node.Edit.insertAfter (t.child i).pageId key pageId))

/-- Insert a slot behind the one that its key leads to, and split a child that overflows. -/
def insert (key : K) (id : PageId) (page : Page) (pageId : PageId) : Edit K Unit := do
  let (i, old) ← (← get).locate order key
  discard (onChild i (Node.Edit.insertAfter old key id))
  if ((← get).child i).isOverflowing then split i page pageId

/-- Merge child `i + 1` into child `i`: its first child goes there under the separator of the
two, the other slots follow. -/
def merge (i : Nat) : Edit K Unit := do
  let t ← get
  let last ← (t.child i).childAt ((t.child i).size - 1)
  let separator ← t.parent.keyAt (i + 1)
  let first ← (t.child (i + 1)).childAt 0
  discard (onChild i (Node.Edit.insertAfter last separator first))
  onFamily (i + 1) i (Family.mergeInto (i + 1))
  modify fun t => { t with children := t.children.eraseIdx (i + 1) }

end Tree

/-- One step of a caller. -/
inductive Step (K : Type) where
  /-- Insert a slot; a split takes the page and gives it the identifier. -/
  | insert (key : K) (id : PageId) (page : Page) (pageId : PageId)
  /-- Child `i + 1` gives its first child to child `i`. -/
  | lendFirst (i : Nat)
  /-- Child `i` gives its last child to child `i + 1`. -/
  | lendLast (i : Nat)
  /-- Child `i + 1` is merged into child `i`. -/
  | merge (i : Nat)

/-- The slots that a step inserts. -/
def Step.added {K : Type} : Step K → List (K × PageId)
  | .insert key id _ _ => [(key, id)]
  | _ => []

namespace Tree

variable {K : Type} [Key K] (order : K → K → Ordering)

/-- Take a step. -/
def perform : Step K → Edit K Unit
  | .insert key id page pageId => insert order key id page pageId
  | .lendFirst i => onFamily (i + 1) i Family.lendFirst
  | .lendLast i => onFamily i (i + 1) (Family.lendLast (i + 1))
  | .merge i => merge i

/-- Take steps one after the other. -/
def run : List (Step K) → Edit K Unit
  | [] => pure ()
  | s :: ss => do
    perform order s
    run ss

/-- The preconditions of a step.  An insertion asks for a new key, a new child and room in the
child that it goes to; if it fills one slot past the threshold there, the split asks for room in
the parent and a new page.  Borrowing asks for a slot to lend and room for it, merging for room
for the slots of both children. -/
def Ready (t : Tree K) : Step K → Prop
  | .insert key id _ pageId =>
    (∀ x ∈ separators t.inorder, order key x ≠ .eq) ∧ id ∉ t.inorder.map Prod.snd ∧
      ∀ i old, t.locate order key = .ok (i, old) →
        (t.child i).size ≤ t.parent.maxSize ∧
          ((t.child i).size = t.parent.maxSize →
            t.parent.size ≤ t.parent.maxSize ∧ pageId ∉ t.pageIds)
  | .lendFirst i =>
    i + 1 < t.children.length ∧ 1 < (t.child (i + 1)).size ∧ (t.child i).size < t.parent.maxSize
  | .lendLast i =>
    i + 1 < t.children.length ∧ 1 < (t.child i).size ∧ (t.child (i + 1)).size < t.parent.maxSize
  | .merge i =>
    i + 1 < t.children.length ∧
      (t.child i).size + (t.child (i + 1)).size ≤ t.parent.maxSize

/-- Each of the steps finds its preconditions when its turn comes. -/
def Legal : Tree K → List (Step K) → Prop
  | _, [] => True
  | t, s :: ss => t.Ready order s ∧ ∀ u, perform order s t = .ok () u → Legal u ss

end Tree

end PagedIndex
