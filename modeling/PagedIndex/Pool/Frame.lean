import PagedIndex.Action
import PagedIndex.Page.Basic

/-! # Frames

A frame is a place in memory for one page, with the number of guards that pin it and a mark for
bytes that differ from the file.  The pin counter is a 32-bit word: it wraps, and the step that
wraps it is a `Fault`. -/

namespace PagedIndex

structure Frame where
  page : Page
  /-- The page held, if any. -/
  resident : Option PageId
  pins : UInt32
  dirty : Bool

namespace Frame

def empty : Frame := ⟨Page.zero, none, 0, false⟩

/-- The text of frame `i` in messages. -/
def text (i : Nat) : String := s!"Frame({i})"

/-- The text of frame `i` in dumps. -/
def debugText (i : Nat) : String := s!"FrameId({i})"

def isPinned (f : Frame) : Bool := f.pins ≠ 0

/-- The frame holds a page that no guard pins. -/
def isEvictable (f : Frame) : Bool := f.resident.isSome && !f.isPinned

/-- Count one more guard; answers the new count. -/
def pin : Action Fault Frame UInt32 := do
  let pins := (← get).pins
  modify fun f => { f with pins := pins + 1 }
  require (pins + 1 ≠ 0) Fault.outOfRange
  return pins + 1

/-- Count one guard less; answers the new count. -/
def unpin : Action Fault Frame UInt32 := do
  let pins := (← get).pins
  modify fun f => { f with pins := pins - 1 }
  require (pins ≠ 0) Fault.pinUnderflow
  return pins - 1

end Frame

end PagedIndex
