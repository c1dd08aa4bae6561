import PagedIndex.Bytes.LittleEndian

/-! # Page identifiers

A page is named by a 32-bit number; the largest one stands for "no page", as the parent of a root
and as the child behind a fresh sentinel. -/

namespace PagedIndex

/-- Names a page of the database file. -/
@[ext]
structure PageId where
  val : UInt32
deriving DecidableEq, Repr

namespace PageId

/-- Width of an identifier in bytes. -/
def width : Nat := 4

/-- The identifier of no page. -/
def invalid : PageId := ⟨0xFFFFFFFF⟩

def isValid (id : PageId) : Bool := id ≠ invalid

def toNat (id : PageId) : Nat := id.val.toNat

instance : Inhabited PageId := ⟨invalid⟩

/-- Identifiers are ordered as numbers. -/
instance : Ord PageId := ⟨fun a b => compare a.val b.val⟩

/-- The bytes of an identifier, least significant first. -/
def encode (id : PageId) : List UInt8 := LittleEndian.encode width id.toNat

/-- The identifier with the given bytes. -/
def decode (bs : List UInt8) : PageId := ⟨UInt32.ofNat (LittleEndian.decode bs)⟩

/-- The text used in messages. -/
def text (id : PageId) : String :=
  if id.isValid then s!"Page({id.toNat})" else "Page(INVALID)"

/-- The text used in dumps. -/
def debugText (id : PageId) : String := s!"PageId({id.toNat})"

end PageId

end PagedIndex
