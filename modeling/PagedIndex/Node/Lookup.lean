import PagedIndex.Node.Basic

/-! # Routing

`Node.route` finds the child that covers a search key: keys below the first separator go to the
first child, keys at or above the last one to the last child, and the rest are found by halving
the range of separators.  `Node.childIndex` finds the slot of a child. -/

namespace PagedIndex.Node

variable {K : Type} [Key K]

/-- The child covering `key`, which lies at or above key `low` and below key `high`. -/
def bisect (v : Node K) (order : K → K → Ordering) (key : K) (low high : Nat) :
    Except Fault PageId :=
  if h : low + 1 < high then
    let mid := low + (high - low) / 2
    have : low < mid ∧ mid < high := by omega
    do
      match order key (← v.readKey mid) with
      | .lt => bisect v order key low mid
      | .gt => bisect v order key mid high
      | .eq => v.readChild mid
  else v.readChild low
termination_by high - low

/-- The child whose range covers `key`. -/
def route (v : Node K) (order : K → K → Ordering) (key : K) : Except Fault PageId := do
  require (1 < v.size) (Fault.noKeys v.pageId)
  if (order key (← v.readKey 1)).isLT then
    v.readChild 0
  else if (order key (← v.readKey (v.size - 1))).isGE then
    v.readChild (v.size - 1)
  else
    v.bisect order key 1 (v.size - 1)

/-- The first of `count` slots from `i` on that points at `id`, or the slot behind them. -/
def findChild (v : Node K) (id : PageId) (i : Nat) : Nat → Except Fault Nat
  | 0 => .ok i
  | count + 1 => do
    if (← v.readChild i) = id then return i else v.findChild id (i + 1) count

/-- The first slot that points at `id`, or the size if there is none. -/
def childIndex (v : Node K) (id : PageId) : Except Fault Nat := v.findChild id 0 v.size

end PagedIndex.Node
