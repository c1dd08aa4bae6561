/-! # Page kinds

The first byte of a page is a tag that says what the page holds.  Unknown tags count as
`blank`, the kind of a page never written. -/

namespace PagedIndex

inductive PageKind where
  /-- Never written, or not recognised. -/
  | blank
  | data
  /-- An internal node of the tree. -/
  | inner
  | leaf
  /-- Released and waiting for reuse. -/
  | free
deriving DecidableEq, Repr, Inhabited

namespace PageKind

/-- The tag byte of a kind. -/
def tag : PageKind → UInt8
  | blank => 0
  | data => 1
  | inner => 2
  | leaf => 3
  | free => 4

def ofTag (t : UInt8) : PageKind :=
  if t = 1 then data
  else if t = 2 then inner
  else if t = 3 then leaf
  else if t = 4 then free
  else blank

/-- The name used in messages. -/
def name : PageKind → String
  | blank => "Invalid"
  | data => "Data"
  | inner => "BTreeInternal"
  | leaf => "BTreeLeaf"
  | free => "Free"

/-- Pages of this kind carry a checksum. -/
def isChecksummed (k : PageKind) : Bool := k ≠ blank

@[simp] theorem ofTag_tag (k : PageKind) : ofTag k.tag = k := by
  cases k <;> rfl

theorem tag_ofTag {t : UInt8} (h : t ≤ 4) : (ofTag t).tag = t := by
  have ht : t.toNat < 5 := by
    have := UInt8.le_iff_toNat_le.mp h
    simpa [Nat.lt_succ_iff] using this
  have hcases : t = 0 ∨ t = 1 ∨ t = 2 ∨ t = 3 ∨ t = 4 := by
    simp only [← UInt8.toNat_inj, UInt8.reduceToNat]
    omega
  rcases hcases with rfl | rfl | rfl | rfl | rfl <;> rfl

end PageKind

end PagedIndex
