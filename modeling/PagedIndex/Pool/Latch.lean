import PagedIndex.Pool.Basic
import PagedIndex.Node.Basic

/-! # Latches

Guards are also latches: any number of read guards of a page may live together, but a write guard
excludes every other guard of its page.  These are the calls that would wait for a guard that is
held already. -/

namespace PagedIndex.Guard

variable {n : Nat}

/-- A guard that excludes readers of `id`. -/
def excludesReaders (g : Guard n) (id : PageId) : Bool := g.page = id && g.access = .write

/-- A guard that excludes writers of `id`. -/
def excludesWriters (g : Guard n) (id : PageId) : Bool := g.page = id

/-- Fetching `id` would wait for one of the guards held. -/
def fetchWaits (held : List (Guard n)) (id : PageId) : Access → Bool
  | .read => held.any (·.excludesReaders id)
  | .write => held.any (·.excludesWriters id)

/-- Flushing `id` would wait for one of the guards held. -/
def flushWaits (held : List (Guard n)) (id : PageId) : Bool := fetchWaits held id .read

/-- Flushing every page would wait for one of the guards held. -/
def flushAllWaits (held : List (Guard n)) : Bool := held.any (·.access = .write)

/-- Visiting the children of a node would wait for one of the guards held.  Slots that a header
claims beyond the end of the page have no children. -/
def visitWaits {K : Type} [Key K] (held : List (Guard n)) (v : Node K) : Bool :=
  (List.range (min v.size (Node.capacity K))).any fun i => fetchWaits held (v.child i) .read

end PagedIndex.Guard
