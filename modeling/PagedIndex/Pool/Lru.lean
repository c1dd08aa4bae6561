/-! # Least recently released

The candidates for eviction in the order of their latest release, the oldest first. -/

namespace PagedIndex

/-- Candidates of type `α`, the one released longest ago first. -/
@[ext]
structure Lru (α : Type) where
  order : List α
deriving DecidableEq, Repr

namespace Lru

variable {α : Type} [DecidableEq α]

def empty : Lru α := ⟨[]⟩

/-- Number of candidates. -/
def size (q : Lru α) : Nat := q.order.length

/-- Drop a candidate, if it is one. -/
def remove (q : Lru α) (a : α) : Lru α := ⟨q.order.erase a⟩

/-- Make `a` the candidate released last. -/
def release (q : Lru α) (a : α) : Lru α := ⟨q.order.erase a ++ [a]⟩

/-- The candidate released longest ago, and the others. -/
def evict? (q : Lru α) : Option (α × Lru α) :=
  match q.order with
  | [] => none
  | a :: rest => some (a, ⟨rest⟩)

end Lru

end PagedIndex
