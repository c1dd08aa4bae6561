import PagedIndex.Pool.Basic
import PagedIndex.Proofs.Disk.Calls

/-! # What each call of a pool does

One rule for every call, in the form of `Action.Ends`: a call ends well if each of the states it
can end in is good.  The states are written with the changes below, each of which touches one part
of a pool, so that an invariant is checked change by change and no later proof opens a call. -/

namespace PagedIndex

/-- A refusal, or a number past the range of its type. -/
def Stop.Limited : Stop → Prop
  | .refused _ => True
  | .broken f => f = .outOfRange

namespace Pool

open PagedIndex.Action

variable {n : Nat}

/-! ### Changes -/

/-- Neither a free frame nor one to evict. -/
def Exhausted (s : Pool n) : Prop := s.free = [] ∧ s.lru.order = []

/-- The frame at a place. -/
def frame (s : Pool n) (f : Fin n) : Frame := s.frames.get f

/-- A frame is replaced. -/
def setAt (s : Pool n) (f : Fin n) (x : Frame) : Pool n :=
  { s with frames := s.frames.set f x f.isLt }

/-- The table forgets a page. -/
def forgotten (s : Pool n) (id : PageId) : Pool n :=
  { s with table := s.table.filter fun e => e.1 ≠ id }

/-- The table points at the frame of a page. -/
def recorded (s : Pool n) (id : PageId) (f : Fin n) : Pool n :=
  { s with table := (id, f) :: s.table.filter fun e => e.1 ≠ id }

/-- A frame loses its page. -/
def emptied (s : Pool n) (f : Fin n) : Pool n :=
  s.setAt f { s.frame f with resident := none, dirty := false }

/-- A frame lies on the free stack. -/
def returned (s : Pool n) (f : Fin n) : Pool n := { s with free := f :: s.free }

/-- A frame is the one released last. -/
def queued (s : Pool n) (f : Fin n) : Pool n := { s with lru := s.lru.release f }

/-- A frame is no candidate for eviction. -/
def unqueued (s : Pool n) (f : Fin n) : Pool n := { s with lru := s.lru.remove f }

/-- The bytes of a frame are in the file. -/
def written (s : Pool n) (f : Fin n) (id : PageId) : Pool n :=
  { s.setAt f { s.frame f with dirty := false } with disk := s.disk.put id (s.frame f).page }

/-- The device gives up on the bytes of a frame. -/
def torn (s : Pool n) (f : Fin n) (id : PageId) (b : Breakdown) : Pool n :=
  { s with disk := s.disk.torn id (s.frame f).page.stamped b }

/-- An empty frame holds a page that one guard pins. -/
def occupied (s : Pool n) (f : Fin n) (id : PageId) (p : Page) : Pool n :=
  (s.setAt f ⟨p, some id, 1, (s.frame f).dirty⟩).recorded id f

/-- A page that no guard pins leaves memory. -/
def discarded (s : Pool n) (id : PageId) (f : Fin n) : Pool n :=
  (((s.forgotten id).unqueued f).emptied f).returned f

/-- A page that no guard pins leaves memory, and its place in the file is released. -/
def deleted (s : Pool n) (id : PageId) (f : Fin n) : Pool n :=
  { s.discarded id f with disk := s.disk.released id }

/-- One more guard pins a frame. -/
def repinned (s : Pool n) (f : Fin n) : Pool n :=
  (s.setAt f { s.frame f with pins := (s.frame f).pins + 1 }).unqueued f

/-- One guard less pins a frame; `written` says that it was one for writing. -/
def unpinned (s : Pool n) (f : Fin n) (written : Bool) : Pool n :=
  s.setAt f { s.frame f with
    pins := (s.frame f).pins - 1
    dirty := (s.frame f).dirty || written }

section Frames

variable (s : Pool n) (f : Fin n)

theorem frame_setAt (g : Fin n) (x : Frame) :
    (s.setAt f x).frame g = if g = f then x else s.frame g := by
  show (s.frames.set f x f.isLt)[g.val] = if g = f then x else s.frames[g.val]
  rw [Vector.getElem_set]
  by_cases hfg : g = f
  · rw [if_pos hfg, if_pos (congrArg Fin.val hfg.symm)]
  · rw [if_neg hfg, if_neg fun h => hfg (Fin.ext h.symm)]

@[simp] theorem frame_setAt_self (x : Frame) : (s.setAt f x).frame f = x := by
  rw [frame_setAt, if_pos rfl]

theorem frame_setAt_ne {g : Fin n} (x : Frame) (h : g ≠ f) :
    (s.setAt f x).frame g = s.frame g := by
  rw [frame_setAt, if_neg h]

@[simp] theorem setAt_setAt (x y : Frame) : (s.setAt f x).setAt f y = s.setAt f y := by
  simp [setAt]

theorem setAt_comm {g : Fin n} (x y : Frame) (h : f ≠ g) :
    (s.setAt f x).setAt g y = (s.setAt g y).setAt f x :=
  congrArg (fun frames => { s with frames }) (Vector.set_comm x y fun he => h (Fin.ext he))

theorem field_setAt {α : Type} (field : Frame → α) {x : Frame}
    (hx : field x = field (s.frame f)) (g : Fin n) :
    field ((s.setAt f x).frame g) = field (s.frame g) := by
  rw [frame_setAt]
  split
  · next hg =>
      subst hg
      exact hx
  · rfl

@[simp] theorem frame_forgotten (id : PageId) : (s.forgotten id).frame f = s.frame f := rfl

@[simp] theorem frame_returned (g : Fin n) : (s.returned g).frame f = s.frame f := rfl

theorem unqueued_eq_self (h : f ∉ s.lru.order) : s.unqueued f = s := by
  unfold unqueued Lru.remove
  rw [List.erase_of_not_mem h]

end Frames

theorem mem_of_frameOf? {s : Pool n} {id : PageId} {f : Fin n} (h : s.frameOf? id = some f) :
    (id, f) ∈ s.table := by
  obtain ⟨l₁, l₂, ht, -⟩ := List.lookup_eq_some_iff.mp h
  rw [ht]
  exact List.mem_append_right _ List.mem_cons_self

theorem ofDisk_parts {disk : Disk} {s : Pool n} (h : Pool.ofDisk n disk = .ok s) :
    (∀ f, s.frame f = Frame.empty) ∧ s.table = [] ∧ s.free = List.finRange n ∧
      s.lru = Lru.empty ∧ s.disk = disk := by
  unfold ofDisk require at h
  split at h
  · injection h with hs
    subst hs
    exact ⟨fun f => Vector.getElem_replicate f.2, rfl, rfl, rfl, rfl⟩
  · cases h

/-! ### Rules -/

/-- A refused call keeps `I`, and only what is beyond the limit `L` breaks one. -/
def Kept (I : Pool n → Prop) (L : Prop) : Stop → Pool n → Prop
  | .refused _, s => I s
  | .broken _, _ => L

theorem Kept.intro {I : Pool n → Prop} {c : Stop} {s : Pool n} (h : I s) : Kept I True c s := by
  cases c with
  | refused e => exact h
  | broken c => trivial

/-- Why a fetch of a page stops. -/
inductive FetchStop (id : PageId) : Stop → Prop
  /-- The frame of the page cannot count one more guard. -/
  | limit : FetchStop id (.broken .outOfRange)
  | invalid : FetchStop id (.refused (.invalidPageId id))
  | full : FetchStop id (.refused .noFreeFrames)
  /-- The file has no place for the page that is to be evicted. -/
  | unwritten (old : PageId) : FetchStop id (.refused (Disk.refusal old))
  /-- The device gives up on the page that is to be evicted. -/
  | torn (cause : FileError) : FetchStop id (.refused (.file cause))
  | unread {e : Error} : e ∈ [.pageNotFound id, .file .shortRead, .checksumMismatch id] →
      FetchStop id (.refused e)

section Rules

variable {s : Pool n} {f : Fin n} {id : PageId} {E : Stop → Pool n → Prop}

theorem setFrame_ends {Q : Unit → Pool n → Prop} {change : Frame → Frame}
    (h : Q () (s.setAt f (change (s.frame f)))) : (setFrame f change).Ends s Q E := h

/-- A clean frame stays as it is; a dirty one is written, if the file has a place for it and the
device does not give up. -/
theorem writeBack_stores {Q : Unit → Pool n → Prop}
    (hclean : (s.frame f).dirty = false → Q () s)
    (hdirty : (s.frame f).dirty = true → s.disk.Holds id → Q () (s.written f id))
    (hrefused : ¬ s.disk.Holds id → E (.refused (Disk.refusal id)) s)
    (hfails : ∀ b, (s.frame f).dirty = true → s.disk.Holds id → s.disk.Fails b →
      E (.refused (.file b.cause)) (s.torn f id b)) :
    (writeBack f id).Ends s Q E := by
  unfold writeBack
  rw [ends_bind, ends_get]
  by_cases hd : s.frames[f].dirty = true
  · simp only [if_pos hd]
    unfold onDisk
    rw [ends_bind, ends_zoom, ends_mapCause]
    exact Disk.write_ends (hdirty hd) hrefused fun b => hfails b hd
  · simp only [if_neg hd]
    exact hclean (Bool.eq_false_iff.mpr hd)

/-- Whatever a write is refused for, it is not for want of a frame. -/
theorem writeBack_ends {Q : Unit → Pool n → Prop}
    (hclean : (s.frame f).dirty = false → Q () s)
    (hdirty : (s.frame f).dirty = true → s.disk.Holds id → Q () (s.written f id))
    (hrefused : ∀ e, ¬ s.disk.Holds id → e ≠ .noFreeFrames → E (.refused e) s)
    (hfails : ∀ b, (s.frame f).dirty = true → s.disk.Holds id → s.disk.Fails b →
      E (.refused (.file b.cause)) (s.torn f id b)) :
    (writeBack f id).Ends s Q E :=
  writeBack_stores hclean hdirty
    (fun hid => hrefused _ hid (Disk.refusal_ne_noFreeFrames id)) hfails

/-- The page of the frame, if there is one, goes back to the file before the frame is emptied; a
frame that cannot be written back waits for its next turn. -/
theorem vacate_ends {Q : Unit → Pool n → Prop}
    (hnone : (s.frame f).resident = none → Q () (s.emptied f))
    (hsome : ∀ old, (s.frame f).resident = some old →
      (writeBack f old).Ends s (fun _ s' => Q () ((s'.forgotten old).emptied f))
        fun c s' => E c (s'.queued f)) : (vacate f).Ends s Q E := by
  unfold vacate
  rw [ends_bind, ends_get]
  cases hres : s.frames[f].resident with
  | none => exact hnone hres
  | some old =>
      simp only [ends_bind, ends_orCleanup]
      exact hsome old hres

/-- A frame comes from the free stack, or from the front of the eviction order, or not at all. -/
theorem acquire_ends {Q : Fin n → Pool n → Prop}
    (hfree : ∀ f rest, s.free = f :: rest → Q f { s with free := rest })
    (hevict : ∀ f rest, s.free = [] → s.lru.order = f :: rest →
      (vacate f).Ends { s with lru := ⟨rest⟩ } (fun _ s' => Q f s') E)
    (hfull : s.free = [] → s.lru.order = [] → E (.refused .noFreeFrames) s) :
    acquire.Ends s Q E := by
  unfold acquire
  rw [ends_bind, ends_get]
  cases hs : s.free with
  | cons f rest => exact hfree f rest hs
  | nil =>
      rw [ends_bind, ends_get]
      unfold Lru.evict?
      cases ho : s.lru.order with
      | nil => exact hfull hs ho
      | cons f rest =>
          simp only [ends_bind, ends_modify, ends_pure]
          exact hevict f rest hs ho

theorem acquire_free {Q : Fin n → Pool n → Prop} {rest : List (Fin n)} (hs : s.free = f :: rest)
    (h : Q f { s with free := rest }) : acquire.Ends s Q E := by
  apply acquire_ends
  · intro g rest' hs'
    obtain ⟨rfl, rfl⟩ := List.cons.inj (hs.symm.trans hs')
    exact h
  · intro g rest' hs'
    rw [hs] at hs'
    cases hs'
  · intro hs'
    rw [hs] at hs'
    cases hs'

theorem pin_ends {Q : UInt32 → Pool n → Prop}
    (h : (s.frame f).pins + 1 ≠ 0 →
      Q ((s.frame f).pins + 1) (s.setAt f { s.frame f with pins := (s.frame f).pins + 1 }))
    (hover : ∀ s', (s.frame f).pins + 1 = 0 → E (.broken .outOfRange) s') :
    (onFrame f Frame.pin).Ends s Q E := by
  unfold onFrame Frame.pin
  simp only [ends_bind, ends_zoom, ends_mapCause, ends_get, ends_modify, ends_require, ends_pure]
  exact ⟨h, fun hzero => hover _ (Decidable.not_not.mp hzero)⟩

theorem unpin_ends {Q : UInt32 → Pool n → Prop} (hpins : (s.frame f).pins ≠ 0)
    (h : Q ((s.frame f).pins - 1) (s.setAt f { s.frame f with pins := (s.frame f).pins - 1 })) :
    (onFrame f Frame.unpin).Ends s Q E := by
  unfold onFrame Frame.unpin
  simp only [ends_bind, ends_zoom, ends_mapCause, ends_get, ends_modify, ends_require, ends_pure]
  exact ⟨fun _ => h, fun hzero => absurd hpins hzero⟩

theorem acquire_disk :
    acquire.Ends s
      (fun _ s' => s'.disk.free = s.disk.free ∧ s'.disk.pageCount = s.disk.pageCount)
      fun _ s' => s'.disk.free = s.disk.free ∧ s'.disk.pageCount = s.disk.pageCount := by
  refine acquire_ends (fun _ _ _ => ⟨rfl, rfl⟩) ?_ fun _ _ => ⟨rfl, rfl⟩
  intro f rest _ _
  refine vacate_ends (fun _ => ⟨rfl, rfl⟩) fun old _ => ?_
  exact writeBack_ends (fun _ => ⟨rfl, rfl⟩) (fun _ _ => ⟨rfl, rfl⟩) (fun _ _ _ => ⟨rfl, rfl⟩)
    fun _ _ _ _ => ⟨rfl, rfl⟩

/-- With nothing free and nothing to evict there is no frame to be had, and only then. -/
theorem acquire_exhausted :
    acquire.Ends s (fun _ _ => ¬ s.Exhausted)
      fun c _ => c = .refused .noFreeFrames ↔ s.Exhausted := by
  have hno : ∀ e : Error, e ≠ .noFreeFrames → ¬ s.Exhausted →
      (Stop.refused e = .refused .noFreeFrames ↔ s.Exhausted) := fun e he hs =>
    ⟨fun h => absurd (Stop.refused.inj h) he, fun h => absurd h hs⟩
  refine acquire_ends ?_ ?_ fun hfree horder => ⟨fun _ => ⟨hfree, horder⟩, fun _ => rfl⟩
  · rintro f rest hs ⟨hfree, -⟩
    simp [hfree] at hs
  · intro f rest _ hs
    have hsome : ¬ s.Exhausted := fun h => by simp [h.2] at hs
    refine vacate_ends (fun _ => hsome) fun old _ => ?_
    exact writeBack_ends (fun _ => hsome) (fun _ _ => hsome) (fun e _ he => hno e he hsome)
      fun b _ _ _ => hno _ nofun hsome

/-- A frame is not to be had, and then nothing has changed, or the page in it cannot be written. -/
theorem acquire_stops :
    acquire.Ends s (fun _ _ => True) fun c s' =>
      c = .refused .noFreeFrames ∧ s' = s ∨ (∃ old, c = .refused (Disk.refusal old)) ∨
        ∃ cause, c = .refused (.file cause) := by
  refine acquire_ends (fun _ _ _ => trivial) (fun f rest _ _ => ?_) fun _ _ => .inl ⟨rfl, rfl⟩
  refine vacate_ends (fun _ => trivial) fun old _ => ?_
  exact writeBack_stores (fun _ => trivial) (fun _ _ => trivial) (fun _ => .inr (.inl ⟨old, rfl⟩))
    fun b _ _ _ => .inr (.inr ⟨b.cause, rfl⟩)

theorem occupy_ends {Q : Unit → Pool n → Prop} {p : Page} (hpins : (s.frame f).pins = 0)
    (h : Q () (s.occupied f id p)) : (occupy f id p).Ends s Q E := by
  unfold occupy
  rw [ends_bind]
  apply setFrame_ends
  rw [ends_bind, ends_discard]
  refine pin_ends (fun _ => ?_) fun s' hover => ?_
  · rw [frame_setAt_self, setAt_setAt, hpins]
    exact h
  · rw [frame_setAt_self, hpins] at hover
    exact absurd hover (by decide)

/-- A page in memory is pinned once more; another one is read into a frame. -/
theorem pinPage_ends {Q : Fin n → Pool n → Prop}
    (hinvalid : ¬ id.isValid → E (.refused (.invalidPageId id)) s)
    (hhit : ∀ f, id.isValid → s.frameOf? id = some f → (s.frame f).pins + 1 ≠ 0 →
      Q f (s.repinned f))
    (hover : ∀ f s', id.isValid → s.frameOf? id = some f → (s.frame f).pins + 1 = 0 →
      E (.broken .outOfRange) s')
    (hmiss : id.isValid → s.frameOf? id = none →
      acquire.Ends s
        (fun f s' => (s'.frame f).pins = 0 ∧
          (∀ p, s'.disk.read id = .ok p → Q f (s'.occupied f id p)) ∧
          ∀ e, s'.disk.read id = .error e → E (.refused e) (s'.returned f)) E) :
    (pinPage id).Ends s Q E := by
  unfold pinPage
  simp only [ends_bind, ends_require, ends_get]
  refine ⟨fun hid => ?_, hinvalid⟩
  cases ht : s.frameOf? id with
  | some f =>
      simp only [ends_bind, ends_discard, ends_pure]
      exact pin_ends (hhit f hid ht) fun s' => hover f s' hid ht
  | none =>
      simp only [ends_bind, ends_get]
      refine (hmiss hid ht).mono ?_ fun _ _ he => he
      rintro f s' ⟨hpins, hok, herror⟩
      cases hr : s'.disk.read id with
      | ok p =>
          simp only [ends_bind, ends_pure]
          exact occupy_ends hpins (hok p hr)
      | error e => exact herror e hr

theorem pinPage_miss {Q : Fin n → Pool n → Prop} (hid : id.isValid) (ht : s.frameOf? id = none)
    (h : acquire.Ends s
      (fun f s' => (s'.frame f).pins = 0 ∧
        (∀ p, s'.disk.read id = .ok p → Q f (s'.occupied f id p)) ∧
        ∀ e, s'.disk.read id = .error e → E (.refused e) (s'.returned f)) E) :
    (pinPage id).Ends s Q E := by
  refine pinPage_ends (fun hno => absurd hid hno) ?_ ?_ fun _ _ => h
  · intro f _ hf
    rw [ht] at hf
    cases hf
  · intro f _ _ hf
    rw [ht] at hf
    cases hf

theorem fetch_ends {Q : Guard n → Pool n → Prop} {access : Access}
    (h : (pinPage id).Ends s (fun f s' => Q ⟨f, id, access⟩ s') E) :
    (fetch id access).Ends s Q E := by
  unfold fetch
  simp only [ends_bind, ends_pure]
  exact h

/-- In every state a fetch stops for one of the causes listed. -/
theorem fetch_stops {access : Access} :
    (fetch id access).Ends s (fun _ _ => True) fun c _ => FetchStop id c := by
  have hpin : ∀ (s' : Pool n) (f : Fin n),
      (onFrame f Frame.pin).Ends s' (fun _ _ => True) fun c _ => FetchStop id c := fun s' f =>
    pin_ends (fun _ => trivial) fun _ _ => .limit
  have hacquire : acquire.Ends s (fun _ _ => True) fun c _ => FetchStop id c := by
    refine acquire_stops.mono (fun _ _ h => h) ?_
    rintro c s' (⟨rfl, -⟩ | ⟨old, rfl⟩ | ⟨cause, rfl⟩)
    · exact .full
    · exact .unwritten old
    · exact .torn cause
  apply fetch_ends
  unfold pinPage
  simp only [ends_bind, ends_require, ends_get]
  refine ⟨fun hid => ?_, fun _ => .invalid⟩
  cases s.frameOf? id with
  | some f =>
      simp only [ends_bind, ends_discard]
      exact (hpin s f).mono (fun _ _ _ => trivial) fun _ _ h => h
  | none =>
      simp only [ends_bind, ends_get]
      refine hacquire.mono (fun f s' _ => ?_) fun _ _ h => h
      cases hr : s'.disk.read id with
      | ok p =>
          unfold occupy
          simp only [ends_bind, ends_discard]
          apply setFrame_ends
          exact (hpin _ f).mono (fun _ _ _ => trivial) fun _ _ h => h
      | error e => exact .unread (Disk.read_error hid hr)

theorem fetch_limited {access : Access} :
    (fetch id access).Ends s (fun _ _ => True) fun c _ => c.Limited :=
  fetch_stops.mono (fun _ _ _ => trivial) fun c _ h => by
    cases h with
    | limit => rfl
    | full | invalid | unwritten | torn | unread => trivial

/-- A new page takes the place released last or, when there is none, one at the end of the file;
the file cannot grow past the identifiers.  When the device gives up the frame is given back. -/
theorem newPage_ends {Q : Guard n → Pool n → Prop}
    (h : acquire.Ends s
      (fun f s' => (s'.frame f).pins = 0 ∧
        (∀ id rest, s'.disk.free = id :: rest → Q ⟨f, id, .write⟩
          (occupied { s' with disk := s'.disk.reused id rest } f id Page.zero)) ∧
        (s'.disk.free = [] → (⟨s'.disk.pageCount⟩ : PageId).isValid →
          Q ⟨f, ⟨s'.disk.pageCount⟩, .write⟩
            (occupied { s' with disk := s'.disk.grown } f ⟨s'.disk.pageCount⟩ Page.zero)) ∧
        (s'.disk.free = [] → ¬ (⟨s'.disk.pageCount⟩ : PageId).isValid →
          ∀ s'', E (.broken .outOfRange) s'') ∧
        ∀ b d, s'.disk.Fails b → s'.disk.Aborted b d →
          E (.refused (.file b.cause)) (returned { s' with disk := d } f)) E) :
    newPage.Ends s Q E := by
  unfold newPage
  simp only [ends_bind, ends_orCleanup, ends_pure]
  refine h.mono ?_ fun _ _ he => he
  rintro f s' ⟨hpins, hreuse, hgrow, hlimit, hfails⟩
  unfold onDisk
  rw [ends_zoom]
  apply Disk.allocate_ends
  · intro id rest hfree
    exact occupy_ends hpins (hreuse id rest hfree)
  · intro hfree hid
    exact occupy_ends hpins (hgrow hfree hid)
  · intro d hfree hid
    exact hlimit hfree hid _
  · exact hfails

theorem release_ends {Q : Unit → Pool n → Prop} {g : Guard n}
    (hpins : (s.frame g.frame).pins ≠ 0)
    (hlast : (s.frame g.frame).pins - 1 = 0 →
      Q () ((s.unpinned g.frame (g.access = .write)).queued g.frame))
    (hmore : (s.frame g.frame).pins - 1 ≠ 0 → Q () (s.unpinned g.frame (g.access = .write))) :
    (release g).Ends s Q E := by
  -- Both kinds of guard reach this point, a write guard with the frame marked.
  have hunpin : ∀ s' : Pool n,
      (s'.frame g.frame) =
        { s.frame g.frame with dirty := (s.frame g.frame).dirty || decide (g.access = .write) } →
      (∀ x, s'.setAt g.frame x = s.setAt g.frame x) →
      Ends (do if (← onFrame g.frame Frame.unpin) = 0 then makeCandidate g.frame) s' Q E := by
    intro s' hframe hset
    rw [ends_bind]
    apply unpin_ends (by rwa [hframe])
    rw [hset, hframe]
    split
    · next hzero => exact hlast hzero
    · next hzero => exact hmore hzero
  unfold release
  cases hw : g.access with
  | read =>
      refine hunpin s ?_ fun _ => rfl
      simp [hw]
  | write =>
      simp only [if_pos]
      rw [ends_bind]
      apply setFrame_ends
      refine hunpin _ ?_ (setAt_setAt s g.frame _)
      rw [frame_setAt_self, hw]
      simp

theorem update_ends {Q : Unit → Pool n → Prop} {g : Guard n} {p : Page}
    (h : Q () (s.setAt g.frame { s.frame g.frame with page := p })) : (update g p).Ends s Q E := h

/-- The place of a page in the file is released, unless it is free already or the device gives
up. -/
theorem deallocate_ends {Q : Unit → Pool n → Prop}
    (hrefused : ∀ e, ¬ s.disk.Holds id → e ≠ .noFreeFrames → E (.refused e) s)
    (hfree : s.disk.Holds id → id ∈ s.disk.free → Q () s)
    (hused : s.disk.Holds id → id ∉ s.disk.free → Q () { s with disk := s.disk.released id })
    (hfails : ∀ b, s.disk.Live id → s.disk.Fails b →
      E (.refused (.file b.cause)) { s with disk := s.disk.torn id Page.tombstone.stamped b }) :
    (onDisk (n := n) ((Disk.deallocate id).mapCause Stop.refused)).Ends s Q E := by
  unfold onDisk
  rw [ends_zoom, ends_mapCause]
  exact Disk.deallocate_ends hfree (fun hid => hused hid.1 hid.2)
    (fun hid => hrefused _ hid (Disk.refusal_ne_noFreeFrames id)) hfails

/-- A page that no guard pins leaves the pool, and then its place in the file is released. -/
theorem deletePage_ends {Q : Unit → Pool n → Prop}
    (hpinned : ∀ f, s.frameOf? id = some f → (s.frame f).pins ≠ 0 →
      E (.refused (.pagePinned id)) s)
    (hresident : ∀ f, s.frameOf? id = some f → (s.frame f).pins = 0 →
      (onDisk ((Disk.deallocate id).mapCause Stop.refused)).Ends (s.discarded id f) Q E)
    (habsent : s.frameOf? id = none →
      (onDisk ((Disk.deallocate id).mapCause Stop.refused)).Ends s Q E) :
    (deletePage id).Ends s Q E := by
  unfold deletePage
  rw [ends_bind, ends_get]
  cases ht : s.frameOf? id with
  | none => exact habsent ht
  | some f =>
      simp only [ends_bind, ends_get, ends_require]
      refine ⟨fun hpins => ?_, fun hpins => ?_⟩
      · have hzero : ¬ (s.frame f).isPinned := hpins
        exact hresident f ht (by simpa [Frame.isPinned] using hzero)
      · have hsome : ¬ ¬ (s.frame f).isPinned := hpins
        exact hpinned f ht (by simpa [Frame.isPinned] using hsome)

theorem flushPage_ends {Q : Unit → Pool n → Prop}
    (habsent : s.frameOf? id = none → Q () s)
    (hresident : ∀ f, s.frameOf? id = some f → (writeBack f id).Ends s Q E) :
    (flushPage id).Ends s Q E := by
  unfold flushPage
  rw [ends_bind, ends_get]
  cases ht : s.frameOf? id with
  | none => exact habsent ht
  | some f => exact hresident f ht

/-- What writing back one entry keeps, writing back many keeps. -/
theorem flushEntries_ends {I : Pool n → Prop}
    {entries : List (PageId × Fin n)} (hI : I s)
    (hstep : ∀ e ∈ entries, ∀ s', I s' → (writeBack e.2 e.1).Ends s' (fun _ s'' => I s'') E) :
    (flushEntries entries).Ends s (fun _ s' => I s') E := by
  induction entries generalizing s with
  | nil => exact hI
  | cons e rest ih =>
      unfold flushEntries
      rw [ends_bind]
      refine (hstep e List.mem_cons_self s hI).mono ?_ fun _ _ he => he
      intro _ s' hI'
      exact ih hI' fun e' he' => hstep e' (List.mem_cons_of_mem _ he')

end Rules

end Pool

end PagedIndex
