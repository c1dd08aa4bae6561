import PagedIndex.Proofs.Disk.Calls
import PagedIndex.Proofs.Disk.Reopen

/-! # Runs of a store

An `Event` is a call of the store, or the store is closed and its file opened again; `Effect` tells
all that it can do, `Step` performs one event that comes back, answered or refused, and `Run`
performs any number of them, keeping every event with the store it was performed on. -/

namespace PagedIndex.Disk

open PagedIndex.Action

/-! ### Events -/

inductive Event where
  | allocate
  | deallocate (id : PageId)
  | write (id : PageId) (p : Page)
  | read (id : PageId)
  /-- The store is closed and its file opened again. -/
  | reopen

/-- What an event hands back. -/
inductive Answer where
  | done
  | page (id : PageId)
  | bytes (p : Page)

namespace Event

/-- What an event does to the store. -/
def task : Event → Action Stop Disk Answer
  | allocate => .page <$> Disk.allocate
  | deallocate id => (fun _ => .done) <$> (Disk.deallocate id).mapCause Stop.refused
  | write id p => (fun _ => .done) <$> (Disk.write id p).mapCause Stop.refused
  | read id => do
      let d ← get
      .bytes <$> (liftM (d.read id) : Action Error Disk Page).mapCause Stop.refused
  | reopen => do
      let d ← get
      set (← (liftM (openExisting (some d.file)) : Action Error Disk Disk).mapCause Stop.refused)
      return .done

/-- The page that an event names. -/
def target : Event → Option PageId
  | deallocate id => some id
  | write id _ => some id
  | read id => some id
  | allocate => none
  | reopen => none

/-- The event asks for another page of a file with all identifiers in use. -/
def AtLimit (d : Disk) (e : Event) : Prop :=
  e = allocate ∧ d.free = [] ∧ d.pageCount = PageId.invalid.val

end Event

/-- How an event came back: with an answer, or refused. -/
abbrev Outcome := Except Error Answer

/-- What an event can do over a reliable device: all the ways in which it comes back, and the store
it leaves. -/
inductive Effect (d : Disk) : Event → Outcome → Disk → Prop
  | reused {id : PageId} {rest : List PageId} : d.free = id :: rest →
      Effect d .allocate (.ok (.page id)) (d.reused id rest)
  | grown : d.free = [] → (⟨d.pageCount⟩ : PageId).isValid →
      Effect d .allocate (.ok (.page ⟨d.pageCount⟩)) d.grown
  | released {id : PageId} : d.Live id → Effect d (.deallocate id) (.ok .done) (d.released id)
  | spared {id : PageId} : d.Holds id → id ∈ d.free → Effect d (.deallocate id) (.ok .done) d
  | written {id : PageId} {p : Page} : d.Holds id →
      Effect d (.write id p) (.ok .done) (d.put id p)
  | shown {id : PageId} {p : Page} : d.read id = .ok p → Effect d (.read id) (.ok (.bytes p)) d
  | opened : Effect d .reopen (.ok .done) (ofFile d.file)
  | refused {e : Event} {id : PageId} : e.target = some id → ¬ d.Holds id →
      Effect d e (.error (refusal id)) d
  | damaged {id : PageId} {c : Error} : d.Holds id → d.read id = .error c →
      Effect d (.read id) (.error c) d

theorem Event.effect (hr : d.Reliable) (e : Event) :
    e.task.Ends d (fun a d' => Effect d e (.ok a) d') fun c d' =>
      match c with
      | .refused c => Effect d e (.error c) d'
      | .broken _ => e.AtLimit d := by
  cases e with
  | allocate =>
      refine ends_map.mpr (allocate_ends (fun _ _ => .reused) .grown ?_ ?_)
      · exact fun _ hfree hid => ⟨rfl, hfree, by simpa [PageId.isValid, PageId.ext_iff] using hid⟩
      · exact fun b _ hb => absurd hb (hr.not_fails b)
  | deallocate id =>
      refine ends_map.mpr (ends_mapCause.mpr (deallocate_ends .spared .released (.refused rfl) ?_))
      exact fun b _ hb => absurd hb (hr.not_fails b)
  | write id p =>
      refine ends_map.mpr (ends_mapCause.mpr (write_ends .written (.refused rfl) ?_))
      exact fun b _ hb => absurd hb (hr.not_fails b)
  | read id =>
      refine ends_bind.mpr (ends_get.mpr (ends_map.mpr (ends_mapCause.mpr ?_)))
      rw [ends_liftM]
      by_cases hid : d.Holds id
      · cases hp : d.read id with
        | ok p => exact .shown hp
        | error c => exact .damaged hid hp
      · rw [read_refused hid]
        exact .refused rfl hid
  | reopen => exact .opened

/-- One event that comes back. -/
inductive Step (d : Disk) (e : Event) : Outcome → Disk → Prop
  | answered {a : Answer} {d' : Disk} : e.task d = .ok a d' → Step d e (.ok a) d'
  | refused {c : Error} {d' : Disk} : e.task d = .error (.refused c) d' → Step d e (.error c) d'

theorem Step.effect {e : Event} {o : Outcome} {d' : Disk} (hr : d.Reliable)
    (hs : Step d e o d') : Effect d e o d' := by
  cases hs with
  | answered hx => exact (e.effect hr).of_ok hx
  | refused hx => exact (e.effect hr).of_error hx

/-! ### Runs -/

/-- An event of a run, the store before it and how it came back. -/
structure Entry where
  before : Disk
  event : Event
  outcome : Outcome

/-- The events that lead from one store to another, in order. -/
inductive Run (d : Disk) : List Entry → Disk → Prop
  | start : Run d [] d
  | step {h : List Entry} {u v : Disk} {e : Event} {o : Outcome} :
      Run d h u → Step u e o v → Run d (h ++ [⟨u, e, o⟩]) v

/-- Every event leaves the stack of released pages in order, and the file long enough. -/
theorem Effect.sound {d d' : Disk} {e : Event} {o : Outcome} (hd : d.Sound)
    (h : Effect d e o d') : d'.Sound := by
  cases h with
  | reused hfree => exact hd.reused hfree
  | grown hfree hvalid => exact hd.grown hfree hvalid
  | released hid => exact hd.released hid
  | written _ => exact hd.put
  | opened => exact .ofFile d.file
  | spared _ _ | shown _ | refused _ _ | damaged _ _ => exact hd

theorem Effect.reliable {d d' : Disk} {e : Event} {o : Outcome} (hr : d.Reliable)
    (h : Effect d e o d') : d'.Reliable := by
  cases h with
  | reused _ | grown _ _ | released _ | written _ => exact hr.tail rfl
  | opened => rfl
  | spared _ _ | shown _ | refused _ _ | damaged _ _ => exact hr

section Runs

variable {d u v : Disk} {h : List Entry}

theorem Run.reliable (hr : d.Reliable) (hrun : Run d h u) : u.Reliable := by
  induction hrun with
  | start => exact hr
  | step _ hs ih => exact (hs.effect ih).reliable ih

theorem Run.effect {e : Event} {o : Outcome} (hr : d.Reliable) (hrun : Run d h u)
    (hs : Step u e o v) : Effect u e o v :=
  hs.effect (hrun.reliable hr)

theorem Run.sound (hr : d.Reliable) (hd : d.Sound) (hrun : Run d h u) : u.Sound := by
  induction hrun with
  | start => exact hd
  | step hrun hs ih => exact (hrun.effect hr hs).sound ih

end Runs

/-- Every event of a run has a run before it and a run after it. -/
theorem Run.split {d u : Disk} {h h' : List Entry} {x : Entry} (hrun : Run d (h ++ x :: h') u) :
    ∃ v, Run d h x.before ∧ Step x.before x.event x.outcome v ∧ Run v h' u := by
  generalize hlist : h ++ x :: h' = l at hrun
  induction hrun generalizing h' with
  | start => simp at hlist
  | @step l u v e o hrun hs ih =>
      rcases List.eq_nil_or_concat h' with rfl | ⟨init, y, rfl⟩
      · obtain ⟨rfl, hx⟩ := List.append_inj' hlist rfl
        obtain rfl := (List.cons.inj hx).1
        exact ⟨v, hrun, hs, .start⟩
      · rw [List.concat_eq_append, ← List.cons_append, ← List.append_assoc] at hlist
        obtain ⟨hinit, hy⟩ := List.append_inj' hlist rfl
        obtain rfl := (List.cons.inj hy).1
        obtain ⟨w, hbefore, hstep, hafter⟩ := ih hinit
        rw [List.concat_eq_append]
        exact ⟨w, hbefore, hstep, .step hafter hs⟩

end PagedIndex.Disk
