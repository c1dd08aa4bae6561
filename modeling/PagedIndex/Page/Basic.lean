import PagedIndex.Bytes.Buffer
import PagedIndex.Crc32
import PagedIndex.Page.Kind
import PagedIndex.Fault

/-! # Pages

A `Page` is a block of `pageSize` bytes that starts with a `PageHeader`:

    offset  width  field
         0      1  kind
         1      4  checksum
         5      8  log sequence number

The checksum is the CRC-32 of all bytes, the checksum field itself counted as zeros.  Headers can
be read from and written to a buffer of any length; one that is too short is a `Fault`. -/

namespace PagedIndex

/-- Size of a page in bytes. -/
abbrev pageSize : Nat := 4096

/-- Number of pages that identifiers can tell apart. -/
def maxPages : Nat := UInt32.size

/-- Largest size of a database file in bytes. -/
def maxFileSize : Nat := maxPages * pageSize

abbrev Page := Buffer pageSize

structure PageHeader where
  kind : PageKind
  checksum : UInt32
  lsn : UInt64
deriving DecidableEq, Repr

namespace PageHeader

/-- Width of the header in bytes. -/
def width : Nat := 13

/-- The header of a freshly formatted page. -/
def fresh (kind : PageKind) : PageHeader := ⟨kind, 0, 0⟩

variable {n : Nat}

/-- The header at the start of a buffer. -/
def ofBuffer (b : Buffer n) : PageHeader where
  kind := PageKind.ofTag (b.byte 0)
  checksum := b.u32 1
  lsn := b.u64 5

/-- Store the header at the start of a buffer. -/
def store (h : PageHeader) (b : Buffer n) : Buffer n :=
  ((b.setByte 0 h.kind.tag).setU32 1 h.checksum).setU64 5 h.lsn

/-- The header of a buffer long enough to hold one. -/
def ofBuffer? (b : Buffer n) : Except Fault PageHeader :=
  if Buffer.spans n 0 width then .ok (ofBuffer b) else .error .shortHeader

/-- Store the header in a buffer long enough to hold one. -/
def store? (h : PageHeader) (b : Buffer n) : Except Fault (Buffer n) :=
  if Buffer.spans n 0 width then .ok (h.store b) else .error .shortHeader

end PageHeader

namespace Buffer

variable {n : Nat}

/-- The `len` bytes from `start` on, if the buffer reaches so far. -/
def read? (b : Buffer n) (start len : Nat) : Except Fault (List UInt8) :=
  if spans n start len then .ok (b.read start len) else .error .outOfBounds

/-- Store bytes from `start` on, if the buffer reaches so far. -/
def write? (b : Buffer n) (start : Nat) (bs : List UInt8) : Except Fault (Buffer n) :=
  if spans n start bs.length then .ok (b.write start bs) else .error .outOfBounds

/-- CRC-32 of the buffer with its checksum field counted as zeros. -/
def checksum (b : Buffer n) : UInt32 := Crc32.ofList (b.setU32 1 0).toList

/-- The checksum of a buffer long enough to have a checksum field. -/
def checksum? (b : Buffer n) : Except Fault UInt32 :=
  if Buffer.spans n 1 4 then .ok b.checksum else .error .outOfBounds

end Buffer

namespace Page

/-- The page of zeros. -/
def zero : Page := Buffer.filled pageSize 0

@[simp] theorem byte_zero (i : Nat) : zero.byte i = 0 := by
  rw [zero, Buffer.byte_filled]
  split <;> rfl

def header (p : Page) : PageHeader := PageHeader.ofBuffer p

def setHeader (p : Page) (h : PageHeader) : Page := h.store p

/-- The kind recorded in the header. -/
def kind (p : Page) : PageKind := PageKind.ofTag (p.byte 0)

/-- Store the checksum of the page in its header. -/
def updateChecksum (p : Page) : Page := p.setU32 1 p.checksum

/-- The stored checksum is that of the page. -/
def verifyChecksum (p : Page) : Bool := p.header.checksum = p.checksum

/-- The page as it goes to the file: kinds that carry a checksum have it brought up to date. -/
def stamped (p : Page) : Page := if p.kind.isChecksummed then p.updateChecksum else p

/-- The page is fit to be handed out: its checksum holds if its kind carries one. -/
def intact (p : Page) : Bool := !p.kind.isChecksummed || p.verifyChecksum

/-- The page that marks a released place in the file. -/
def tombstone : Page := zero.setHeader (PageHeader.fresh .free)

end Page

end PagedIndex
