import PagedIndex.Pool.Nodes
import PagedIndex.Proofs.Pool.Backing

/-! # Refused calls

What a call that is refused leaves of a pool.  As a rule that is the pool as it was.  A fetch that
cannot read its page may have taken a frame for it already: then the frame stays free, and its
last page is in the file (`Vacated`).  Where the device gives up on the page that was to make
room, that page stays in memory (`Requeued`); where it gives up on the mark of a deletion, the page
has left memory by then.  In no case does a frame lose its pins (`Run.refused_loses_nothing`). -/

namespace PagedIndex.Pool

open PagedIndex.Action

variable {n : Nat}

/-- One frame that no guard pins has been given up: it is free, the table has all entries but its
own, and its page is in the file, at least if it was changed or the file is `ours` alone. -/
structure Vacated (ours : Prop) (s : Pool n) (f : Fin n) (s' : Pool n) : Prop where
  unpinned : (s.frame f).pins = 0
  frame : s'.frame f = { s.frame f with resident := none, dirty := false }
  others : ∀ g, g ≠ f → s'.frame g = s.frame g
  table : s'.table = s.table.filter fun e => e.2 ≠ f
  free : s'.free = f :: s.free
  order : s.lru.order = f :: s'.lru.order
  ledger : s'.disk.free = s.disk.free ∧ s'.disk.pageCount = s.disk.pageCount
  images : ∀ id, (s.frame f).resident ≠ some id → s'.disk.image id = s.disk.image id
  stored : ∀ id, (s.frame f).resident = some id → (s.frame f).dirty = true ∨ ours →
    s'.disk.file.readPage? id.toNat = some (s.frame f).page.stamped

/-- The device has given up on the page of one frame that no guard pins: the frame keeps the page
and waits for its next turn, and only the place of that page in the file may have changed. -/
structure Requeued (s : Pool n) (f : Fin n) (s' : Pool n) : Prop where
  unpinned : (s.frame f).pins = 0
  dirty : (s.frame f).dirty = true
  frames : s'.frames = s.frames
  table : s'.table = s.table
  free : s'.free = s.free
  order : ∃ rest, s.lru.order = f :: rest ∧ s'.lru.order = rest ++ [f]
  ledger : s'.disk.free = s.disk.free ∧ s'.disk.pageCount = s.disk.pageCount
  images : ∀ id, (s.frame f).resident ≠ some id → s'.disk.image id = s.disk.image id

section Calls

variable {ours : Prop} {s s' : Pool n} {guards : List (Guard n)} {f : Fin n} {id old : PageId}

theorem filter_table (ha : Accounted s guards []) (h : Found s)
    (hold : (s.frame f).resident = some old) :
    (s.table.filter fun e => e.1 ≠ old) = s.table.filter fun e => e.2 ≠ f := by
  refine List.filter_congr fun e he => ?_
  have hres := ha.tabled e he
  have hiff : e.1 = old ↔ e.2 = f := by
    constructor
    · rintro rfl
      exact h.unique hres hold
    · rintro rfl
      exact Option.some.inj (hres.symm.trans hold)
  simp only [ne_eq, hiff]

theorem vacated_of_same (ha : Accounted s guards []) (h : Found s) (u : Pool n)
    (hold : (s.frame f).resident = some old) (horder : s.lru.order = f :: u.lru.order)
    (hpins : (s.frame f).pins = 0)
    (hframe : { u.frame f with dirty := false } = { s.frame f with dirty := false })
    (hothers : ∀ g, g ≠ f → u.frame g = s.frame g) (htable : u.table = s.table)
    (hfree : u.free = s.free)
    (hledger : u.disk.free = s.disk.free ∧ u.disk.pageCount = s.disk.pageCount)
    (himages : ∀ id, id ≠ old → u.disk.image id = s.disk.image id)
    (hstored : (s.frame f).dirty = true ∨ ours →
      u.disk.file.readPage? old.toNat = some (s.frame f).page.stamped) :
    Vacated ours s f (((u.forgotten old).emptied f).returned f) where
  unpinned := hpins
  frame := by
    rw [frame_returned, emptied, frame_setAt_self, frame_forgotten]
    exact congrArg (fun x : Frame => { x with resident := none, dirty := false }) hframe
  others g hg := by
    rw [frame_returned, emptied, frame_setAt_ne _ _ _ hg, frame_forgotten, hothers g hg]
  table := (congrArg _ htable).trans (filter_table ha h hold)
  free := congrArg (f :: ·) hfree
  order := horder
  ledger := hledger
  images id hid := himages id fun he => hid (he ▸ hold)
  stored id hid := by
    obtain rfl : old = id := Option.some.inj (hold.symm.trans hid)
    exact hstored

theorem requeued_torn (ha : Accounted s guards []) {rest : List (Fin n)}
    (ho : s.lru.order = f :: rest) (hold : (s.frame f).resident = some old)
    (hdirty : (s.frame f).dirty = true) (b : Breakdown) :
    Requeued s f ((torn { s with lru := ⟨rest⟩ } f old b).queued f) := by
  refine ⟨ha.unpinned (.inr (.inl (ho ▸ List.mem_cons_self))), hdirty, rfl, rfl, rfl,
    ⟨rest, ho, ?_⟩, ⟨rfl, rfl⟩, fun id hid => ?_⟩
  · have hnot : f ∉ rest := by
      have honce := ha.once f
      rw [ho, List.count_cons_self] at honce
      exact List.count_eq_zero.mp (by omega)
    exact congrArg (· ++ [f]) (List.erase_of_not_mem hnot)
  · exact Disk.image_torn_ne fun he => hid (he ▸ hold)

theorem acquire_vacated (ha : Accounted s guards []) (h : Backed ours s guards) :
    acquire.Ends s (fun f s' => s'.returned f = s ∨ Vacated ours s f (s'.returned f))
      fun c s' => c = .refused .noFreeFrames ∧ s' = s ∨
        ∃ cause, c = .refused (.file cause) ∧ ∃ f, Requeued s f s' := by
  refine acquire_ends ?_ ?_ fun _ _ => .inl ⟨rfl, rfl⟩
  · intro f rest hs
    refine .inl ?_
    unfold returned
    rw [← hs]
  · intro f rest _ ho
    have hzero : (s.frame f).pins = 0 := ha.unpinned (.inr (.inl (ho ▸ List.mem_cons_self)))
    refine vacate_ends (fun hres => .inr ?_) fun old hold => ?_
    · have hres' : (s.frame f).resident = none := hres
      refine ⟨hzero, ?_, ?_, ?_, rfl, ho, ⟨rfl, rfl⟩, fun _ _ => rfl, ?_⟩
      · rw [frame_returned, emptied, frame_setAt_self]
        rfl
      · intro g hg
        rw [frame_returned, emptied, frame_setAt_ne _ _ _ hg]
        rfl
      · refine (List.filter_eq_self.mpr fun e he => ?_).symm
        simpa using ha.not_tabled hres' e he
      · intro id hid
        rw [hres'] at hid
        cases hid
    · have hlive := h.live f old hold
      refine writeBack_ends (fun hclean => .inr ?_) (fun hdirty _ => .inr ?_) ?_ ?_
      · refine vacated_of_same ha h.found { s with lru := ⟨rest⟩ } hold ho hzero rfl
          (fun _ _ => rfl) rfl rfl ⟨rfl, rfl⟩ (fun _ _ => rfl) fun hours => ?_
        have hours' := hours.resolve_left (Bool.eq_false_iff.mp hclean)
        have hset : Settled s guards f := ⟨hclean, fun g hg hgf =>
          absurd hgf (ha.pins_eq_zero.mp hzero g hg)⟩
        rw [← h.stored hours' f old hold hset]
        exact Disk.readPage?_image (h.sound hours') hlive.1
      · refine vacated_of_same ha h.found (Pool.written { s with lru := ⟨rest⟩ } f old) hold ho
          hzero ?_ (fun g hg => frame_setAt_ne _ _ _ hg) rfl rfl ⟨rfl, rfl⟩
          (fun _ hid => Disk.image_put_ne hid) fun _ => File.readPage?_writePage _ _ _
        exact congrArg (fun x : Frame => { x with dirty := false }) (frame_setAt_self _ f _)
      · exact fun e hid _ => absurd hlive.1 hid
      · exact fun b hdirty _ _ => .inr ⟨b.cause, rfl, f, requeued_torn ha ho hold hdirty b⟩

/-- A fetch that is refused has changed nothing, or it has vacated a frame for a page that it
could not read, or the device gave up on the page in that frame. -/
theorem fetch_refused (ha : Accounted s guards []) (h : Backed ours s guards) {access : Access} :
    (fetch id access).Ends s (fun _ _ => True) fun c s' => ∀ e, c = .refused e →
      s' = s ∨
      (e ∈ [.pageNotFound id, .file .shortRead, .checksumMismatch id] ∧
        ∃ f, Vacated ours s f s') ∨
      ∃ cause, e = .file cause ∧ ∃ f, Requeued s f s' := by
  refine fetch_ends (pinPage_ends (fun _ _ _ => .inl rfl) (fun _ _ _ _ => trivial)
    (fun _ _ _ _ _ _ => nofun) fun hid _ => ?_)
  refine ((acquire_accounted (L := True) ha).and (acquire_vacated ha h)).mono ?_ ?_
  · rintro f s' ⟨⟨ha', -⟩, hs'⟩
    refine ⟨ha'.unpinned (.inr (.inr List.mem_cons_self)), fun _ _ => trivial, ?_⟩
    rintro e he _ ⟨⟩
    exact hs'.imp_right fun hv => .inl ⟨Disk.read_error hid he, f, hv⟩
  · rintro c s' ⟨-, ⟨rfl, rfl⟩ | ⟨cause, rfl, hq⟩⟩ e he
    · exact .inl rfl
    · exact .inr (.inr ⟨cause, (Stop.refused.inj he).symm, hq⟩)

theorem newPage_refused (ha : Accounted s guards []) (h : Backed ours s guards) :
    newPage.Ends s (fun _ _ => True) fun c s' => ∀ e, c = .refused e →
      s' = s ∨ ∃ cause, e = .file cause := by
  refine newPage_ends (((acquire_accounted (L := True) ha).and (acquire_vacated ha h)).mono ?_ ?_)
  · rintro f s' ⟨⟨ha', -⟩, -⟩
    refine ⟨ha'.unpinned (.inr (.inr List.mem_cons_self)), fun _ _ _ => trivial,
      fun _ _ => trivial, fun _ _ _ _ => nofun, ?_⟩
    rintro b d _ _ e ⟨⟩
    exact .inr ⟨b.cause, rfl⟩
  · rintro c s' ⟨-, ⟨rfl, rfl⟩ | ⟨cause, rfl, -⟩⟩ e he
    · exact .inl rfl
    · exact .inr ⟨cause, (Stop.refused.inj he).symm⟩

theorem deletePage_refused (ha : Accounted s guards []) (h : Backed ours s guards) :
    (deletePage id).Ends s (fun _ _ => True) fun c s' => ∀ e, c = .refused e →
      s' = s ∨ ∃ b : Breakdown, e = .file b.cause ∧
        (s.frameOf? id = none ∧
            s' = { s with disk := s.disk.torn id Page.tombstone.stamped b } ∨
          ∃ f, s.frameOf? id = some f ∧ (s.frame f).pins = 0 ∧
            s' = { s.discarded id f with
              disk := s.disk.torn id Page.tombstone.stamped b }) := by
  refine deletePage_ends (fun _ _ _ _ _ => .inl rfl) (fun f ht hpins => ?_) fun ht => ?_
  · have hlive := h.live f id (ha.tabled _ (mem_of_frameOf? ht))
    refine deallocate_ends (fun _ hid _ => absurd hlive.1 hid) (fun _ _ => trivial)
      (fun _ _ => trivial) ?_
    rintro b _ _ e ⟨⟩
    exact .inr ⟨b, rfl, .inr ⟨f, ht, hpins, rfl⟩⟩
  · refine deallocate_ends (fun _ _ _ _ _ => .inl rfl) (fun _ _ => trivial)
      (fun _ _ => trivial) ?_
    rintro b _ _ e ⟨⟩
    exact .inr ⟨b, rfl, .inl ⟨ht, rfl⟩⟩

/-! ### Nodes -/

theorem fetchNode_accounted (K : Type) [Key K] (ha : Accounted s guards []) (access : Access) :
    (fetchNode K id access).Ends s (fun g s' => Accounted s' (g :: guards) [])
      (Kept (Accounted · guards []) True) := by
  unfold fetchNode needing
  simp only [ends_bind, ends_mapCause, ends_get]
  refine (fetch_accounted (L := True) ha access fun _ _ _ => trivial).mono (fun g s' ha' => ?_) ?_
  · cases (Node.ofPage (s'.view g) : Except Error (Node K)) with
    | ok v => exact ha'
    | error e =>
        simp only [ends_bind, ends_throw]
        refine (release_accounted ha' List.mem_cons_self).mono (fun _ s'' ha'' => ?_)
          fun _ _ => False.elim
        rwa [List.erase_cons_head] at ha''
  · intro c s' hc
    cases c with
    | refused e => exact hc
    | broken f => trivial

theorem Accounted.pins_eq {hand hand' : List (Fin n)} (h : Accounted s guards hand)
    (h' : Accounted s' guards hand') (f : Fin n) : (s'.frame f).pins = (s.frame f).pins :=
  UInt32.toNat_inj.mp ((h'.pins f).trans (h.pins f).symm)

end Calls

/-- Over any file and any device, along any run that fetches no released page.  A new page that is
refused leaves all pins, and everything else too unless the device gave up.  A deletion that is
refused leaves everything as it was, unless the device gave up on it: then the page has left memory
without its bytes, nothing else in the pool has changed, and in the file at most the place of that
page.  A fetch that is refused leaves all pins, all guards and their bytes, and whatever it changes
is the frame of one page without guards: the page is in the file then, or, if the device gave up on
it, still in memory.  A node that is refused leaves all pins. -/
theorem Run.refused_loses_nothing {file : Option File} {disk : Disk} {device : Device}
    {s : Pool n} {h : List (Entry n)} {t : Session n} (hd : Disk.openOrCreate file = .ok disk)
    (hs : Pool.ofDisk n { disk with device } = .ok s) (hrun : Run ⟨s, []⟩ h t)
    (hspares : ∀ x ∈ h, x.event.Spares x.before) :
    (∀ e s', newPage t.pool = .error (.refused e) s' →
      (∀ f, (s'.frame f).pins = (t.pool.frame f).pins) ∧
      (s' = t.pool ∨ ∃ cause, e = .file cause)) ∧
    (∀ id e s', deletePage id t.pool = .error (.refused e) s' →
      s' = t.pool ∨ ∃ b : Breakdown, e = .file b.cause ∧
        (t.pool.frameOf? id = none ∧
            s' = { t.pool with disk := t.pool.disk.torn id Page.tombstone.stamped b } ∨
          ∃ f, t.pool.frameOf? id = some f ∧ (t.pool.frame f).pins = 0 ∧
            s' = { t.pool.discarded id f with
              disk := t.pool.disk.torn id Page.tombstone.stamped b })) ∧
    (∀ id access e s', fetch id access t.pool = .error (.refused e) s' →
      (∀ f, (s'.frame f).pins = (t.pool.frame f).pins) ∧
      (∀ g ∈ t.guards, s'.frame g.frame = t.pool.frame g.frame) ∧
      (s' = t.pool ∨
        (e ∈ [.pageNotFound id, .file .shortRead, .checksumMismatch id] ∧
          ∃ f, Vacated (∀ x ∈ h, ∀ other, x.event ≠ .tamper other) t.pool f s') ∨
        ∃ cause, e = .file cause ∧ ∃ f, Requeued t.pool f s')) ∧
    ∀ (K : Type) [Key K] id access e s',
      fetchNode K id access t.pool = .error (.refused e) s' →
        ∀ f, (s'.frame f).pins = (t.pool.frame f).pins := by
  have ha := hrun.accounted hs
  have hb := (hrun.backed ((Disk.openOrCreate_sound hd).withDevice device) hs hspares id).2
  refine ⟨fun e s' hx => ⟨?_, ?_⟩, fun id e s' hx => ?_, fun id access e s' hx => ?_, ?_⟩
  · exact ha.pins_eq ((newPage_accounted (L := True) ha fun _ _ => trivial).of_error hx)
  · exact (newPage_refused ha hb).of_error hx e rfl
  · exact (deletePage_refused ha hb).of_error hx e rfl
  · have hleft := (fetch_refused ha hb).of_error hx e rfl
    refine ⟨?_, fun g hg => ?_, hleft⟩
    · exact ha.pins_eq ((fetch_accounted (L := True) ha access fun _ _ _ => trivial).of_error hx)
    · rcases hleft with rfl | ⟨-, f, hv⟩ | ⟨-, -, f, hq⟩
      · rfl
      · exact hv.others g.frame (ha.pins_eq_zero.mp hv.unpinned g hg)
      · exact congrArg (Vector.get · g.frame) hq.frames
  · intro K _ id access e s' hx
    exact ha.pins_eq ((fetchNode_accounted K ha access).of_error hx)

/-- One frame: the page in it goes to the file for a page that is not there. -/
theorem fetch_missing_one :
    ∃ (s s' : Pool 1) (t : Session 1) (h : List (Entry 1)),
      Disk.openOrCreate none = .ok ⟨.empty, 0, [], []⟩ ∧ Pool.ofDisk 1 ⟨.empty, 0, [], []⟩ = .ok s ∧
        Run ⟨s, []⟩ h t ∧ (∀ x ∈ h, x.event.Spares x.before) ∧ t.pool.frameOf? ⟨0⟩ = some 0 ∧
        fetch ⟨5⟩ .read t.pool = .error (.refused (.pageNotFound ⟨5⟩)) s' ∧
        ∃ f, Vacated (∀ x ∈ h, ∀ other, x.event ≠ .tamper other) t.pool f s' := by
  let a : Guard 1 := ⟨0, ⟨0⟩, .write⟩
  let file : File := File.empty.writePage 0 Page.zero
  let s : Pool 1 := ⟨#v[⟨Page.zero, none, 0, false⟩], [], [0], ⟨[]⟩, ⟨.empty, 0, [], []⟩⟩
  let s₁ : Pool 1 := ⟨#v[⟨Page.zero, some ⟨0⟩, 1, false⟩], [(⟨0⟩, 0)], [], ⟨[]⟩, ⟨file, 1, [], []⟩⟩
  let s₂ : Pool 1 := ⟨#v[⟨Page.zero, some ⟨0⟩, 0, true⟩], [(⟨0⟩, 0)], [], ⟨[0]⟩, ⟨file, 1, [], []⟩⟩
  let s₃ : Pool 1 := ⟨#v[⟨Page.zero, none, 0, false⟩], [], [0], ⟨[]⟩,
    ⟨file.writePage 0 Page.zero.stamped, 1, [], []⟩⟩
  have h₁ : Step ⟨s, []⟩ .newPage (.ok (some a)) ⟨s₁, [a]⟩ := .answered trivial rfl
  have h₂ : Step ⟨s₁, [a]⟩ (.release a) (.ok none) ⟨s₂, []⟩ :=
    .answered List.mem_cons_self (by with_unfolding_all rfl)
  have hrun := Run.step (.step .start h₁) h₂
  have hs : Pool.ofDisk 1 ⟨.empty, 0, [], []⟩ = .ok s := rfl
  have hspares : ∀ x ∈ ([⟨⟨s, []⟩, .newPage, .ok (some a)⟩, ⟨⟨s₁, [a]⟩, .release a, .ok none⟩] :
      List (Entry 1)), x.event.Spares x.before := by simp [Event.Spares]
  have hx : fetch ⟨5⟩ .read s₂ = .error (.refused (.pageNotFound ⟨5⟩)) s₃ := by
    with_unfolding_all rfl
  have hd : Disk.openOrCreate none = .ok ⟨.empty, 0, [], []⟩ := rfl
  have hleft := ((Run.refused_loses_nothing hd hs hrun hspares).2.2.1 _ _ _ _ hx).2.2
  refine ⟨s, s₃, ⟨s₂, []⟩, _, hd, hs, hrun, hspares, rfl, hx, ?_⟩
  rcases hleft with hsame | ⟨-, hv⟩ | ⟨cause, he, -⟩
  · exact absurd (congrArg Pool.free hsame) (by decide)
  · exact hv
  · cases he

/-- A refused call loses a page in two ways.  Over a device that is full a deletion is refused, and
its page has left the pool.  And where somebody else has cut the file, a fetch is refused, and a
page that was unchanged in memory is neither there nor in the file. -/
theorem refused_loses_one :
    (∃ (device : Device) (s s' : Pool 1) (t : Session 1) (h : List (Entry 1)),
      Pool.ofDisk 1 ⟨.empty, 0, [], device⟩ = .ok s ∧ Run ⟨s, []⟩ h t ∧
        (∀ x ∈ h, x.event.Spares x.before) ∧ t.pool.frameOf? ⟨0⟩ = some 0 ∧
        deletePage ⟨0⟩ t.pool =
          .error (.refused (.file (.other "No space left on device (os error 28)"))) s' ∧
        s'.frameOf? ⟨0⟩ = none ∧ ⟨0⟩ ∉ s'.disk.free) ∧
    ∃ (s s' : Pool 1) (t : Session 1) (h : List (Entry 1)),
      Pool.ofDisk 1 ⟨.empty, 0, [], []⟩ = .ok s ∧ Run ⟨s, []⟩ h t ∧
        (∀ x ∈ h, x.event.Spares x.before) ∧ t.pool.frameOf? ⟨0⟩ = some 0 ∧
        fetch ⟨5⟩ .read t.pool = .error (.refused (.pageNotFound ⟨5⟩)) s' ∧
        s'.frameOf? ⟨0⟩ = none ∧ s'.disk.file.readPage? 0 = none := by
  let a : Guard 1 := ⟨0, ⟨0⟩, .write⟩
  let file : File := File.empty.writePage 0 Page.zero
  let frames : Bool → Vector Frame 1 := fun dirty => #v[⟨Page.zero, some ⟨0⟩, 0, dirty⟩]
  let held : Vector Frame 1 := #v[⟨Page.zero, some ⟨0⟩, 1, false⟩]
  let vacant : Vector Frame 1 := #v[⟨Page.zero, none, 0, false⟩]
  constructor
  · let full : Breakdown := ⟨.other "No space left on device (os error 28)", 0⟩
    let s : Pool 1 := ⟨vacant, [], [0], ⟨[]⟩, ⟨.empty, 0, [], [none, some full]⟩⟩
    let s₁ : Pool 1 := ⟨held, [(⟨0⟩, 0)], [], ⟨[]⟩, ⟨file, 1, [], [some full]⟩⟩
    let s₂ : Pool 1 := ⟨frames true, [(⟨0⟩, 0)], [], ⟨[0]⟩, ⟨file, 1, [], [some full]⟩⟩
    let s₃ : Pool 1 := ⟨vacant, [], [0], ⟨[]⟩, ⟨file, 1, [], []⟩⟩
    have h₁ : Step ⟨s, []⟩ .newPage (.ok (some a)) ⟨s₁, [a]⟩ := .answered trivial rfl
    have h₂ : Step ⟨s₁, [a]⟩ (.release a) (.ok none) ⟨s₂, []⟩ :=
      .answered List.mem_cons_self (by with_unfolding_all rfl)
    have hx : deletePage ⟨0⟩ s₂ = .error (.refused (.file full.cause)) s₃ := by
      with_unfolding_all rfl
    refine ⟨[none, some full], s, s₃, ⟨s₂, []⟩, _, rfl, .step (.step .start h₁) h₂, ?_, rfl, hx,
      rfl, by decide⟩
    simp [Event.Spares]
  · let stored : File := file.writePage 0 Page.zero.stamped
    let s : Pool 1 := ⟨vacant, [], [0], ⟨[]⟩, ⟨.empty, 0, [], []⟩⟩
    let s₁ : Pool 1 := ⟨held, [(⟨0⟩, 0)], [], ⟨[]⟩, ⟨file, 1, [], []⟩⟩
    let s₂ : Pool 1 := ⟨frames true, [(⟨0⟩, 0)], [], ⟨[0]⟩, ⟨file, 1, [], []⟩⟩
    let s₃ : Pool 1 := ⟨frames false, [(⟨0⟩, 0)], [], ⟨[0]⟩, ⟨stored, 1, [], []⟩⟩
    let s₄ : Pool 1 := ⟨frames false, [(⟨0⟩, 0)], [], ⟨[0]⟩, ⟨.empty, 1, [], []⟩⟩
    let s₅ : Pool 1 := ⟨vacant, [], [0], ⟨[]⟩, ⟨.empty, 1, [], []⟩⟩
    have h₁ : Step ⟨s, []⟩ .newPage (.ok (some a)) ⟨s₁, [a]⟩ := .answered trivial rfl
    have h₂ : Step ⟨s₁, [a]⟩ (.release a) (.ok none) ⟨s₂, []⟩ :=
      .answered List.mem_cons_self (by with_unfolding_all rfl)
    have h₃ : Step ⟨s₂, []⟩ (.flushPage ⟨0⟩) (.ok none) ⟨s₃, []⟩ :=
      .answered trivial (by with_unfolding_all rfl)
    have h₄ : Step ⟨s₃, []⟩ (.tamper .empty) (.ok none) ⟨s₄, []⟩ := .answered trivial rfl
    have hx : fetch ⟨5⟩ .read s₄ = .error (.refused (.pageNotFound ⟨5⟩)) s₅ := by
      with_unfolding_all rfl
    refine ⟨s, s₅, ⟨s₄, []⟩, _, rfl, .step (.step (.step (.step .start h₁) h₂) h₃) h₄, ?_, rfl, hx,
      rfl, rfl⟩
    simp [Event.Spares]

end PagedIndex.Pool
