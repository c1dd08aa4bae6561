import PagedIndex.Node.Basic

/-! # Text of a node

`render` gives the separators of a node, or every slot with its child behind a heading.
`debugText` gives every field. -/

namespace PagedIndex.Node

variable {K : Type} [Key K] [KeyText K]

/-- The separators, with a blank between them. -/
def separatorText (v : Node K) : Except Fault String := do
  let keys ← gather v.readKey 1 (v.size - 1)
  return " ".intercalate (keys.map KeyText.text)

def parentText (v : Node K) : String :=
  if v.isRoot then "INVALID" else s!"{v.parentId.toNat}"

/-- A heading, and every slot as its key with the child in parentheses. -/
def slotText (v : Node K) : Except Fault String := do
  let slots ← v.entries
  let shown := slots.map fun (key, id) => s!"{KeyText.text key}({id.toNat})"
  return s!"[pageId: {v.pageId.toNat} parentId: {v.parentText}]<{v.size}> " ++
    " ".intercalate shown

/-- The text of a node; the long form shows every slot. -/
def render (v : Node K) (long : Bool) : Except Fault String :=
  if long then v.slotText else v.separatorText

def debugText (v : Node K) : Except Fault String := do
  let slots ← v.entries
  let shown := slots.map fun (key, id) => s!"({KeyText.debugText key}, {id.debugText})"
  return "InternalPage \x7b page_id: " ++ v.pageId.debugText ++
    ", parent_page_id: " ++ v.parentId.debugText ++
    s!", size: {v.size}, max_size: {v.maxSize}, entries: [" ++ ", ".intercalate shown ++ "] \x7d"

end PagedIndex.Node
