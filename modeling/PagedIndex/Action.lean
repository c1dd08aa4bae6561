/-! # Actions that may stop

An action works on a state and either answers or stops with a cause.  A stopped action keeps
whatever it had changed, so the state behind a failure is as visible as the state behind an
answer.  `zoom` runs an action on one part of a larger state, and `require` is the check of a
precondition. -/

namespace PagedIndex

/-- Actions on a state `σ` that may stop with a cause `ε`, keeping the state reached. -/
abbrev Action (ε σ α : Type) := EStateM ε σ α

/-- A computation without state is an action that leaves the state alone. -/
instance Action.ofExcept {ε σ : Type} : MonadLift (Except ε) (EStateM ε σ) where
  monadLift
    | .ok a => pure a
    | .error e => throw e

/-- Stop with `cause` unless `p` holds. -/
def require {ε : Type} (p : Prop) [Decidable p] (cause : ε) : Except ε Unit :=
  if p then .ok () else .error cause

namespace Action

variable {ε ε' σ τ α : Type}

/-- The answer or cause of an action, with the state reached. -/
def result (x : Action ε σ α) (s : σ) : Except ε α × σ :=
  match x s with
  | .ok a s' => (.ok a, s')
  | .error e s' => (.error e, s')

/-- Run an action on the part of the state that `get` selects and `put` replaces. -/
def zoom (get : σ → τ) (put : σ → τ → σ) (x : Action ε τ α) : Action ε σ α := fun s =>
  match x (get s) with
  | .ok a t => .ok a (put s t)
  | .error e t => .error e (put s t)

/-- The same action with its causes renamed. -/
def mapCause (f : ε → ε') (x : Action ε σ α) : Action ε' σ α := fun s =>
  match x s with
  | .ok a s' => .ok a s'
  | .error e s' => .error (f e) s'

/-- Run `cleanup` on the state reached when `x` stops, and then stop with the cause of `x`. -/
def orCleanup (x : Action ε σ α) (cleanup : ε → Action ε σ Unit) : Action ε σ α :=
  tryCatch x fun e => do
    cleanup e
    throw e

end Action

/-- The answers of `f` at the `count` places from `start` on, up to its first failure. -/
def gather {ε α : Type} (f : Nat → Except ε α) (start : Nat) : Nat → Except ε (List α)
  | 0 => .ok []
  | count + 1 => do
    let a ← f start
    let as ← gather f (start + 1) count
    .ok (a :: as)

end PagedIndex
