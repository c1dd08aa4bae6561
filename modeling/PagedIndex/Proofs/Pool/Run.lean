import PagedIndex.Pool.Basic

/-! # Runs of a pool

A `Session` is a pool together with the guards that its users hold.  An `Event` is a call of the
pool, a store through a guard, or a change of the file by somebody else; `Step` performs one event
whose call comes back, answered or refused, and `Run` performs any number of them, keeping every
event with the session it was performed in.

Latches only forbid events: a call that would wait for a guard its caller holds is a step here
too, so what holds of every `Run` holds of every run without such a call. -/

namespace PagedIndex.Pool

variable {n : Nat}

/-- A pool and the guards that are alive. -/
structure Session (n : Nat) where
  pool : Pool n
  guards : List (Guard n)

inductive Event (n : Nat) where
  | newPage
  | fetch (id : PageId) (access : Access)
  | deletePage (id : PageId)
  | flushPage (id : PageId)
  /-- Write back every dirty page, the table being enumerated in this order. -/
  | flushAll (order : List (PageId × Fin n))
  /-- Drop a guard. -/
  | release (g : Guard n)
  /-- Replace the bytes of a page held for writing. -/
  | update (g : Guard n) (p : Page)
  /-- Somebody else replaces the file. -/
  | tamper (file : File)

namespace Event

/-- What an event does to the pool, with the guard it hands out. -/
def task : Event n → Task n (Option (Guard n))
  | newPage => some <$> Pool.newPage
  | fetch id access => some <$> Pool.fetch id access
  | deletePage id => (fun _ => none) <$> Pool.deletePage id
  | flushPage id => (fun _ => none) <$> Pool.flushPage id
  | flushAll order => (fun _ => none) <$> Pool.flushEntries order
  | release g => (fun _ => none) <$> Pool.release g
  | update g p => (fun _ => none) <$> Pool.update g p
  | tamper file => (fun _ => none) <$>
      (modify fun s => { s with disk := { s.disk with file := file } } : Task n Unit)

/-- The event can happen in a session: guards are used while they are alive, and only a write
guard to store. -/
def Offered (t : Session n) : Event n → Prop
  | flushAll order => order.Perm t.pool.table
  | release g => g ∈ t.guards
  | update g _ => g ∈ t.guards ∧ g.access = .write
  | _ => True

/-- The guards that outlive an event. -/
def kept (guards : List (Guard n)) : Event n → List (Guard n)
  | release g => guards.erase g
  | _ => guards

end Event

/-- How a call came back: with a guard, with nothing to hand out, or refused. -/
abbrev Outcome (n : Nat) := Except Error (Option (Guard n))

/-- One event whose call comes back. -/
inductive Step (t : Session n) (e : Event n) : Outcome n → Session n → Prop
  | answered {o : Option (Guard n)} {s : Pool n} : e.Offered t → e.task t.pool = .ok o s →
      Step t e (.ok o) ⟨s, o.toList ++ e.kept t.guards⟩
  | refused {c : Error} {s : Pool n} : e.Offered t → e.task t.pool = .error (.refused c) s →
      Step t e (.error c) ⟨s, t.guards⟩

/-- An event of a run, the session before it and how it came back. -/
structure Entry (n : Nat) where
  before : Session n
  event : Event n
  outcome : Outcome n

/-- The events that lead from one session to another, in order. -/
inductive Run (t : Session n) : List (Entry n) → Session n → Prop
  | start : Run t [] t
  | step {h : List (Entry n)} {u v : Session n} {e : Event n} {o : Outcome n} :
      Run t h u → Step u e o v → Run t (h ++ [⟨u, e, o⟩]) v

theorem Run.trans {t u v : Session n} {h h' : List (Entry n)} (hrun : Run t h u)
    (hrun' : Run u h' v) : Run t (h ++ h') v := by
  induction hrun' with
  | start => rwa [List.append_nil]
  | step _ hs ih =>
      rw [← List.append_assoc]
      exact .step ih hs

/-- What every step keeps holds in every session of a run. -/
theorem Run.invariant {I : Session n → Prop} {P : Entry n → Prop} {t u : Session n}
    {h : List (Entry n)} (hrun : Run t h u) (ht : I t)
    (hstep : ∀ x v, P x → I x.before → Step x.before x.event x.outcome v → I v)
    (hP : ∀ x ∈ h, P x) : (∀ x ∈ h, I x.before) ∧ I u := by
  induction hrun with
  | start => exact ⟨by simp, ht⟩
  | @step h u v e o _ hs ih =>
      obtain ⟨hall, hu⟩ := ih fun x hx => hP x (List.mem_append_left _ hx)
      have hlast : P ⟨u, e, o⟩ := hP _ (List.mem_append_right _ (List.mem_singleton_self _))
      refine ⟨?_, hstep _ _ hlast hu hs⟩
      intro x hx
      rcases List.mem_append.mp hx with hx | hx
      · exact hall x hx
      · rw [List.mem_singleton.mp hx]
        exact hu

end PagedIndex.Pool
