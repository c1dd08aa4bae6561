/-! # Log filter

Which records are shown: those of the library from `info` up, those of everything else from
`warn` up. -/

namespace PagedIndex

/-- How important a record is, the most important first. -/
inductive LogLevel where
  | error
  | warn
  | info
  | debug
  | trace
deriving DecidableEq, Repr

namespace LogLevel

def rank : LogLevel → Nat
  | error => 1
  | warn => 2
  | info => 3
  | debug => 4
  | trace => 5

/-- What the targets of the library's own records start with. -/
def ownTarget : String := "pagetree"

/-- The least important level shown for a target. -/
def threshold (target : String) : LogLevel :=
  if ownTarget.toList.isPrefixOf target.toList then info else warn

/-- Records of this level are shown for a target. -/
def isShown (level : LogLevel) (target : String) : Bool := level.rank ≤ (threshold target).rank

end LogLevel

end PagedIndex
