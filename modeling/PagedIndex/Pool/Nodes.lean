import PagedIndex.Node.Basic
import PagedIndex.Pool.Basic

/-! # Nodes through the pool

Fetching a node is fetching its page and opening it; a page that does not open is released again.
A fetch that finds the pool full reports the page that could not be brought in; a new node has no
page to name yet and reports the pool.  `Visit` is a traversal: a pool and a queue of read guards
on the nodes still to be seen. -/

namespace PagedIndex

namespace Pool

variable {n : Nat}

/-- Run an action on behalf of an index that needs the page `id`. -/
def needing {α : Type} (id : PageId) (x : Task n α) : Task n α := x.mapCause (Stop.forPage id)

/-- A guard on a page that opens as a node. -/
def fetchNode (K : Type) [Key K] (id : PageId) (access : Access) : Task n (Guard n) := do
  let g ← needing id (fetch id access)
  match (Node.ofPage ((← get).view g) : Except Error (Node K)) with
  | .ok _ => return g
  | .error e =>
    release g
    throw (.refused e)

/-- A write guard on a new page formatted as a node; without a threshold, with the largest one. -/
def newNode (K : Type) [Key K] (parent : PageId) (maxSize : Option Nat) : Task n (Guard n) := do
  let g ← newPage
  let maxSize := maxSize.getD (Node.defaultMaxSize K)
  match (Node.format ((← get).view g) g.page parent maxSize : Except Fault (Node K)) with
  | .ok v =>
    update g v.page
    return g
  | .error f =>
    release g
    throw (.broken f)

end Pool

/-- A traversal in progress. -/
structure Visit (n : Nat) where
  pool : Pool n
  /-- Guards on the nodes still to be seen, the next one first. -/
  queue : List (Guard n)

namespace Visit

variable {n : Nat} {K : Type} [Key K]

abbrev Task (n : Nat) := Action Stop (Visit n)

def onPool {α : Type} : Pool.Task n α → Task n α :=
  Action.zoom Visit.pool fun s p => { s with pool := p }

/-- Queue the children of `count` slots from `i` on, up to the first that cannot be had. -/
def queueSlots (v : Node K) (i : Nat) : Nat → Task n Unit
  | 0 => pure ()
  | count + 1 => do
    match v.readChild i with
    | .error f => throw (.broken f)
    | .ok id =>
      let g ← onPool (Pool.needing id (Pool.fetch id .read))
      modify fun s => { s with queue := s.queue ++ [g] }
      queueSlots v (i + 1) count

/-- Queue a read guard on every child of a node, in the order of its slots. -/
def queueChildren (v : Node K) : Task n Unit := queueSlots v 0 v.size

end Visit

end PagedIndex
