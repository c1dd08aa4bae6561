import Mathlib.Logic.Function.Basic
import PagedIndex.Proofs.Page.Stamp
import PagedIndex.Proofs.Pool.Residence

/-! # Eviction is invisible

What the users of a pool leave behind is a map from identifiers to pages, and it can be told from
their calls alone (`images`).  `Faithful` says that a pool represents such a map: a page in memory
is the image of its identifier, and a page that is not there, or is there unchanged, can be read
back from the file, whose device does not give up.  Every careful event, one that asks for no
released page, takes a pool that represents a map to one that represents the map after the
event. -/

namespace PagedIndex.Pool

open PagedIndex.Action

variable {n : Nat}

/-- The pages in use, with the bytes last stored in each. -/
abbrev Images := PageId → Option Page

/-- The images after an event. -/
def Entry.images (m : Images) (x : Entry n) : Images :=
  match x.event, x.outcome with
  | .newPage, .ok (some g) => Function.update m g.page (some Page.zero)
  | .update g p, .ok _ => Function.update m g.page (some p)
  | .deletePage id, .ok _ => Function.update m id none
  | _, _ => m

/-- The images that a run leaves behind, starting from an empty file. -/
def images (h : List (Entry n)) : Images := h.foldl Entry.images fun _ => none

/-- The event asks for no released page, and it is no change of the file by somebody else. -/
def Event.Careful (t : Session n) : Event n → Prop
  | fetch id _ => id ∉ t.pool.disk.free
  | tamper _ => False
  | _ => True

/-- The bytes of a frame are those in the file. -/
def Settled (s : Pool n) (guards : List (Guard n)) (f : Fin n) : Prop :=
  (s.frame f).dirty = false ∧ ∀ g ∈ guards, g.frame = f → g.access = .read

section Settled

variable {s : Pool n} {guards : List (Guard n)} {f : Fin n}

theorem Settled.of_repinned {f' : Fin n} {g : Guard n}
    (h : Settled (s.repinned f') (g :: guards) f) : Settled s guards f := by
  obtain ⟨hclean, hread⟩ := h
  have hsame : ((s.repinned f').frame f).dirty = (s.frame f).dirty :=
    field_setAt s f' Frame.dirty (by rfl) f
  exact ⟨hsame ▸ hclean, fun g' hg' => hread g' (List.mem_cons_of_mem _ hg')⟩

theorem Settled.of_unpinned {g : Guard n}
    (h : Settled (s.unpinned g.frame (g.access = .write)) (guards.erase g) f) :
    Settled s guards f := by
  obtain ⟨hclean, hread⟩ := h
  unfold unpinned at hclean
  by_cases hf : f = g.frame
  · subst hf
    rw [frame_setAt_self, Bool.or_eq_false_iff, decide_eq_false_iff_not] at hclean
    refine ⟨hclean.1, fun g' hg' hgf => ?_⟩
    by_cases hgg : g' = g
    · rw [hgg]
      cases hw : g.access with
      | read => rfl
      | write => exact absurd hw hclean.2
    · exact hread g' ((List.mem_erase_of_ne hgg).mpr hg') hgf
  · rw [frame_setAt_ne _ _ _ hf] at hclean
    refine ⟨hclean, fun g' hg' hgf => ?_⟩
    have hgg : g' ≠ g := by
      rintro rfl
      exact hf hgf.symm
    exact hread g' ((List.mem_erase_of_ne hgg).mpr hg') hgf

theorem Settled.of_emptied {f' : Fin n} (hres : (s.frame f').resident = none)
    (hf : (s.frame f).resident ≠ none) (h : Settled (s.emptied f') guards f) :
    Settled s guards f := by
  have hne : f ≠ f' := fun he => hf (he ▸ hres)
  rwa [Settled, emptied, frame_setAt_ne _ _ _ hne] at h

end Settled

/-- The pool represents the images. -/
structure Faithful (s : Pool n) (guards : List (Guard n)) (m : Images) : Prop where
  found : Found s
  disk : s.disk.Sound
  reliable : s.disk.Reliable
  live : ∀ id, m id ≠ none ↔ s.disk.Live id
  memory : ∀ f id, (s.frame f).resident = some id → ∃ p, m id = some p ∧ (s.frame f).page.Agrees p
  stored : ∀ id p, m id = some p → (∀ f, (s.frame f).resident = some id → Settled s guards f) →
    (s.disk.image id).intact = true ∧ (s.disk.image id).Agrees p

namespace Faithful

variable {s : Pool n} {guards guards' : List (Guard n)} {m : Images} {f : Fin n} {id old : PageId}

theorem live_of_resident (h : Faithful s guards m) (hf : (s.frame f).resident = some id) :
    s.disk.Live id := by
  obtain ⟨p, hp, -⟩ := h.memory f id hf
  exact (h.live id).mp (by simp [hp])

theorem not_live (h : Faithful s guards m) : m id = none ↔ ¬ s.disk.Live id := by
  rw [← h.live id, not_not]

theorem absent (h : Faithful s guards m) (hid : m id = none) (g : Fin n) :
    (s.frame g).resident ≠ some id :=
  fun hg => h.not_live.mp hid (h.live_of_resident hg)

theorem read (h : Faithful s guards m) {p : Page} (hp : m id = some p)
    (hno : ∀ g, (s.frame g).resident ≠ some id) :
    s.disk.read id = .ok (s.disk.image id) ∧ (s.disk.image id).Agrees p := by
  obtain ⟨hin, hagrees⟩ := h.stored id p hp fun g hg => absurd hg (hno g)
  have hlive : s.disk.Live id := (h.live id).mp (by simp [hp])
  exact ⟨Disk.read_image h.disk hlive.1 hin, hagrees⟩

/-! ### Frames -/

theorem requeued (h : Faithful s guards m) (free : List (Fin n)) (lru : Lru (Fin n)) :
    Faithful { s with free, lru } guards m :=
  ⟨h.found, h.disk, h.reliable, h.live, h.memory, h.stored⟩

/-- Counters and marks change, and guards come and go, but no frame becomes settled. -/
theorem remarked (h : Faithful s guards m) {x : Frame} (hpage : x.page = (s.frame f).page)
    (hres : x.resident = (s.frame f).resident)
    (hset : ∀ g, (s.frame g).resident ≠ none → Settled (s.setAt f x) guards' g →
      Settled s guards g) : Faithful (s.setAt f x) guards' m where
  found := h.found.setAt hres
  disk := h.disk
  reliable := h.reliable
  live := h.live
  memory g id hg := by
    rw [field_setAt s f Frame.resident hres] at hg
    rw [field_setAt s f Frame.page hpage]
    exact h.memory g id hg
  stored id p hp hall := by
    refine h.stored id p hp fun g hg => hset g (by simp [hg]) (hall g ?_)
    rw [field_setAt s f Frame.resident hres]
    exact hg

theorem repinned (h : Faithful s guards m) (f : Fin n) (id : PageId) (access : Access) :
    Faithful (s.repinned f) (⟨f, id, access⟩ :: guards) m := by
  refine requeued (h.remarked (x := { s.frame f with pins := (s.frame f).pins + 1 }) rfl rfl ?_) _ _
  exact fun _ _ hset => hset.of_repinned

theorem unpinnedBy (h : Faithful s guards m) (g : Guard n) :
    Faithful (s.unpinned g.frame (g.access = .write)) (guards.erase g) m := by
  exact h.remarked rfl rfl fun _ _ hset => hset.of_unpinned

theorem updated (h : Faithful s guards m) {g : Guard n} (hg : g ∈ guards) (hw : g.access = .write)
    (hres : (s.frame g.frame).resident = some g.page) (p : Page) :
    Faithful (s.setAt g.frame { s.frame g.frame with page := p }) guards
      (Function.update m g.page (some p)) := by
  have hsame := field_setAt s g.frame Frame.resident (x := { s.frame g.frame with page := p }) rfl
  refine ⟨h.found.setAt rfl, h.disk, h.reliable, ?_, ?_, ?_⟩
  · intro id
    by_cases hid : id = g.page
    · have hlive := h.live_of_resident hres
      rw [hid, Function.update_self]
      exact ⟨fun _ => hlive, fun _ => by simp⟩
    · rw [Function.update_of_ne hid]
      exact h.live id
  · intro f id hf
    rw [hsame] at hf
    by_cases hfg : f = g.frame
    · subst hfg
      obtain rfl : g.page = id := Option.some.inj (hres.symm.trans hf)
      rw [frame_setAt_self, Function.update_self]
      exact ⟨p, rfl, .refl p⟩
    · have hid : id ≠ g.page := by
        rintro rfl
        exact hfg (h.found.unique hf hres)
      rw [frame_setAt_ne _ _ _ hfg, Function.update_of_ne hid]
      exact h.memory f id hf
  · intro id q hq hall
    by_cases hid : id = g.page
    · have hset := hall g.frame (by rw [hsame, hres, hid])
      rw [hset.2 g hg rfl] at hw
      cases hw
    · rw [Function.update_of_ne hid] at hq
      refine h.stored id q hq fun f hf => ?_
      have hset := hall f (by rw [hsame, hf])
      rw [Settled, field_setAt s g.frame Frame.dirty (by rfl)] at hset
      exact hset

/-! ### Pages leave and come -/

theorem written (h : Faithful s guards m) (hf : (s.frame f).resident = some id) :
    Faithful (s.written f id) guards m := by
  have hres : ∀ g, ((s.written f id).frame g).resident = (s.frame g).resident :=
    field_setAt s f Frame.resident (by rfl)
  have hpage : ∀ g, ((s.written f id).frame g).page = (s.frame g).page :=
    field_setAt s f Frame.page (by rfl)
  refine ⟨h.found.written f id, h.disk.put, h.reliable.tail rfl, h.live, ?_, ?_⟩
  · intro g id' hg
    rw [hres] at hg
    rw [hpage]
    exact h.memory g id' hg
  · intro id' p hp hall
    by_cases hid : id' = id
    · obtain ⟨q, hq, hagrees⟩ := h.memory f id hf
      obtain rfl : p = q := Option.some.inj (hp.symm.trans (hid ▸ hq))
      have himage : (s.written f id).disk.image id' = (s.frame f).page.stamped := by
        rw [hid]
        exact Disk.image_put_self
      rw [himage]
      exact ⟨Page.intact_stamped _, (Page.agrees_stamped _).trans hagrees⟩
    · have himage : (s.written f id).disk.image id' = s.disk.image id' := Disk.image_put_ne hid
      rw [himage]
      refine h.stored id' p hp fun g hg => ?_
      have hgf : g ≠ f := by
        rintro rfl
        exact hid (Option.some.inj (hg.symm.trans hf))
      have hset := hall g ((hres g).trans hg)
      have hframe : (s.written f id).frame g = s.frame g := frame_setAt_ne s f _ hgf
      rw [Settled, hframe] at hset
      exact hset

theorem vacated (h : Faithful s guards m) (hold : (s.frame f).resident = some old)
    (hset : Settled s guards f) : Faithful ((s.forgotten old).emptied f) guards m := by
  have hframe : ∀ g, g ≠ f → ((s.forgotten old).emptied f).frame g = s.frame g := fun g hgf =>
    frame_setAt_ne (s.forgotten old) f _ hgf
  have hself : (((s.forgotten old).emptied f).frame f).resident = none := by
    rw [emptied, frame_setAt_self]
  refine ⟨h.found.vacated hold, h.disk, h.reliable, h.live, ?_, ?_⟩
  · intro g id hg
    have hgf : g ≠ f := by
      rintro rfl
      simp [hself] at hg
    rw [hframe g hgf] at hg ⊢
    exact h.memory g id hg
  · intro id p hp hall
    refine h.stored id p hp fun g hg => ?_
    by_cases hgf : g = f
    · rw [hgf]
      exact hset
    · have hset' := hall g (by rw [hframe g hgf, hg])
      rw [Settled, hframe g hgf] at hset'
      exact hset'

/-- The image of a page that is not in memory comes into an empty frame, under its first guard. -/
theorem occupied (h : Faithful s guards m) (hres : (s.frame f).resident = none)
    (hno : ∀ g, (s.frame g).resident ≠ some id) {p q : Page} (hp : m id = some p)
    (hagrees : q.Agrees p) (access : Access) :
    Faithful (s.occupied f id q) (⟨f, id, access⟩ :: guards) m := by
  have hframe : ∀ g, g ≠ f → (s.occupied f id q).frame g = s.frame g := fun g hgf =>
    frame_setAt_ne s f _ hgf
  have hself : (s.occupied f id q).frame f = ⟨q, some id, 1, (s.frame f).dirty⟩ :=
    frame_setAt_self s f _
  refine ⟨(h.found.occupied_iff hres).mpr hno, h.disk, h.reliable, h.live, ?_, ?_⟩
  · intro g id' hg
    by_cases hgf : g = f
    · subst hgf
      rw [hself, Option.some.injEq] at hg
      rw [hself, ← hg]
      exact ⟨p, hp, hagrees⟩
    · rw [hframe g hgf] at hg ⊢
      exact h.memory g id' hg
  · intro id' p' hp' hall
    refine h.stored id' p' hp' fun g hg => ?_
    have hgf : g ≠ f := by
      rintro rfl
      simp [hres] at hg
    have hset := hall g (by rw [hframe g hgf, hg])
    rw [Settled, hframe g hgf] at hset
    exact ⟨hset.1, fun g' hg' => hset.2 g' (List.mem_cons_of_mem _ hg')⟩

theorem withDisk (h : Faithful s guards m) {disk : Disk} {v : Option Page} (hdisk : disk.Sound)
    (hreliable : disk.Reliable) (hno : ∀ g, (s.frame g).resident ≠ some id)
    (hlive : v ≠ none ↔ disk.Live id) (hv : ∀ p, v = some p →
      (disk.image id).intact = true ∧ (disk.image id).Agrees p)
    (hother : ∀ id', id' ≠ id →
      (disk.Live id' ↔ s.disk.Live id') ∧ disk.image id' = s.disk.image id') :
    Faithful { s with disk } guards (Function.update m id v) where
  found := h.found.withDisk disk
  disk := hdisk
  reliable := hreliable
  live id' := by
    by_cases hid : id' = id
    · rw [hid, Function.update_self]
      exact hlive
    · rw [Function.update_of_ne hid, h.live id']
      exact (hother id' hid).1.symm
  memory g id' hg := by
    have hid : id' ≠ id := by
      rintro rfl
      exact hno g hg
    rw [Function.update_of_ne hid]
    exact h.memory g id' hg
  stored id' p hp hall := by
    by_cases hid : id' = id
    · rw [hid, Function.update_self] at hp
      rw [hid]
      exact hv p hp
    · rw [Function.update_of_ne hid] at hp
      have himage : { s with disk }.disk.image id' = s.disk.image id' := (hother id' hid).2
      rw [himage]
      exact h.stored id' p hp hall

theorem created (h : Faithful s guards m) {disk : Disk} (hdisk : disk.Sound)
    (hreliable : disk.Reliable) (hnew : ¬ s.disk.Live id)
    (hlive : ∀ other, disk.Live other ↔ other = id ∨ s.disk.Live other)
    (himage : ∀ other, disk.image other = if other = id then Page.zero else s.disk.image other) :
    Faithful { s with disk } guards (Function.update m id (some Page.zero)) := by
  apply h.withDisk hdisk hreliable (h.absent (h.not_live.mpr hnew))
  · exact ⟨fun _ => (hlive id).mpr (.inl rfl), fun _ => by simp⟩
  · rintro p ⟨⟩
    rw [himage, if_pos rfl]
    exact ⟨Page.intact_zero, .refl _⟩
  · intro other ho
    exact ⟨(hlive other).trans (or_iff_right ho), by rw [himage, if_neg ho]⟩

theorem released (h : Faithful s guards m) (hid : s.disk.Live id)
    (hno : ∀ g, (s.frame g).resident ≠ some id) :
    Faithful { s with disk := s.disk.released id } guards (Function.update m id none) := by
  refine h.withDisk (h.disk.released hid) (h.reliable.tail rfl) hno ?_ nofun ?_
  · rw [Disk.live_released]
    simp
  · intro other ho
    exact ⟨Disk.live_released.trans (and_iff_right ho), Disk.image_put_ne ho⟩

theorem deleted (h : Faithful s guards m) (hold : (s.frame f).resident = some id) :
    Faithful (s.deleted id f) guards (Function.update m id none) := by
  have hframe : ∀ g, g ≠ f → (s.deleted id f).frame g = s.frame g := fun g hgf =>
    frame_setAt_ne _ f _ hgf
  have hself : ((s.deleted id f).frame f).resident = none :=
    congrArg Frame.resident (frame_setAt_self _ f _)
  have hfound : Found (s.deleted id f) := h.found.vacated hold
  refine ⟨hfound, h.disk.released (h.live_of_resident hold), h.reliable.tail rfl, ?_, ?_, ?_⟩
  · intro id'
    have hlive : (s.deleted id f).disk.Live id' ↔ id' ≠ id ∧ s.disk.Live id' := Disk.live_released
    rw [hlive, ← h.live id']
    by_cases hid : id' = id
    · simp [hid]
    · rw [Function.update_of_ne hid]
      exact (and_iff_right hid).symm
  · intro g id' hg
    have hgf : g ≠ f := by
      rintro rfl
      simp [hself] at hg
    rw [hframe g hgf] at hg ⊢
    have hid : id' ≠ id := by
      rintro rfl
      exact hgf (h.found.unique hg hold)
    rw [Function.update_of_ne hid]
    exact h.memory g id' hg
  · intro id' p hp hall
    have hid : id' ≠ id := by
      rintro rfl
      simp at hp
    rw [Function.update_of_ne hid] at hp
    have himage : (s.deleted id f).disk.image id' = s.disk.image id' := Disk.image_put_ne hid
    rw [himage]
    refine h.stored id' p hp fun g hg => ?_
    have hgf : g ≠ f := by
      rintro rfl
      exact hid (Option.some.inj (hg.symm.trans hold))
    have hset := hall g (by rw [hframe g hgf, hg])
    rwa [Settled, hframe g hgf] at hset

end Faithful

/-! ### Calls -/

section Calls

variable {s : Pool n} {guards : List (Guard n)} {m : Images} {f : Fin n} {id : PageId}

theorem writeBack_faithful (h : Faithful s guards m) (hf : (s.frame f).resident = some id) :
    (writeBack f id).Ends s
      (fun _ s' => Faithful s' guards m ∧ (s'.frame f).dirty = false ∧
        ∀ g, (s'.frame g).resident = (s.frame g).resident) fun _ _ => False := by
  refine writeBack_ends (fun hclean => ⟨h, hclean, fun _ => rfl⟩) (fun _ _ => ?_)
    (fun e hid _ => hid (h.live_of_resident hf).1) fun b _ _ => h.reliable.not_fails b
  refine ⟨h.written hf, ?_, field_setAt s f Frame.resident (by rfl)⟩
  exact congrArg Frame.dirty (frame_setAt_self s f _)

/-- Taking a frame changes no image, and it can fail only for want of frames. -/
theorem acquire_faithful (ha : Accounted s guards []) (h : Faithful s guards m) :
    acquire.Ends s (fun _ s' => Faithful s' guards m)
      fun c s' => c = .refused .noFreeFrames ∧ Faithful s' guards m := by
  refine acquire_ends (fun _ _ _ => h.requeued _ _) ?_ fun _ _ => ⟨rfl, h⟩
  intro f rest _ ho
  have ha' := ha.takeOldest ho
  have hzero := ha'.unpinned (f := f) (.inr (.inr List.mem_cons_self))
  have hread : ∀ g ∈ guards, g.frame = f → g.access = .read := fun g hg hgf =>
    absurd hgf (ha'.pins_eq_zero.mp hzero g hg)
  have h' : Faithful { s with lru := ⟨rest⟩ } guards m := h.requeued _ _
  refine vacate_ends (fun hres => ?_) fun old hold => ?_
  · exact h'.remarked rfl hres.symm fun _ hg hset => hset.of_emptied hres hg
  · refine (writeBack_faithful h' hold).mono ?_ fun _ _ => False.elim
    rintro _ s' ⟨hs', hclean, hsame⟩
    exact hs'.vacated ((hsame f).trans hold) ⟨hclean, hread⟩

/-- Fetching a page that has not been released changes no image, and for a live page it can fail
only for want of frames. -/
theorem fetch_faithful (ha : Accounted s guards []) (h : Faithful s guards m)
    (hid : id ∉ s.disk.free) (access : Access) :
    (fetch id access).Ends s (fun g s' => Faithful s' (g :: guards) m ∧ g.page = id)
      fun c s' => Kept (Faithful · guards m) True c s' ∧
        (m id ≠ none → ∀ e, c = .refused e → e = .noFreeFrames) := by
  refine fetch_ends (pinPage_ends (fun hno => ?_) ?_ ?_ ?_)
  · exact ⟨h, fun hm => absurd ((h.live id).mp hm).1.1 hno⟩
  · intro f _ _ _
    exact ⟨h.repinned f id access, rfl⟩
  · intro f s' _ _ _
    exact ⟨trivial, fun _ _ => nofun⟩
  · intro _ ht
    refine (((acquire_accounted (L := True) ha).and acquire_disk).and
      ((acquire_found h.found).and (acquire_faithful ha h))).mono ?_ ?_
    · rintro f s' ⟨⟨⟨ha', hres, hclean⟩, hfree, -⟩, ⟨-, hsame⟩, h'⟩
      have hno : ∀ g, (s'.frame g).resident ≠ some id := by
        intro g hg
        by_cases hgf : g = f
        · rw [hgf, hres] at hg
          cases hg
        · exact h.found.absent ht g ((hsame g hgf).symm.trans hg)
      refine ⟨ha'.unpinned (.inr (.inr List.mem_cons_self)), fun p hp => ?_, fun e he => ?_⟩
      · have hlive : s'.disk.Live id := ⟨Disk.holds_of_read hp, by rwa [hfree]⟩
        obtain ⟨q, hq⟩ := Option.ne_none_iff_exists'.mp ((h'.live id).mpr hlive)
        obtain ⟨hread, hagrees⟩ := h'.read hq hno
        obtain rfl : p = s'.disk.image id := Except.ok.inj (hp.symm.trans hread)
        exact ⟨h'.occupied hres hno hq hagrees access, rfl⟩
      · refine ⟨h'.requeued _ _, fun hm => ?_⟩
        obtain ⟨q, hq⟩ := Option.ne_none_iff_exists'.mp hm
        rw [(h'.read hq hno).1] at he
        cases he
    · rintro c s' ⟨-, -, rfl, h'⟩
      exact ⟨h', fun _ e he => (Stop.refused.inj he).symm⟩

theorem newPage_faithful (ha : Accounted s guards []) (h : Faithful s guards m) :
    newPage.Ends s
      (fun g s' => Faithful s' (g :: guards) (Function.update m g.page (some Page.zero)) ∧
        s'.view g = Page.zero) (Kept (Faithful · guards m) True) := by
  refine newPage_ends (((acquire_accounted (L := True) ha).and (acquire_faithful ha h)).mono ?_ ?_)
  · rintro f s' ⟨⟨ha', hres, -⟩, h'⟩
    have hnew : ∀ {disk : Disk} {id : PageId}, ¬ s'.disk.Live id →
        Faithful { s' with disk } guards (Function.update m id (some Page.zero)) →
        let s'' := Pool.occupied { s' with disk } f id Page.zero
        Faithful s'' (⟨f, id, .write⟩ :: guards) (Function.update m id (some Page.zero)) ∧
          s''.view ⟨f, id, .write⟩ = Page.zero := by
      intro disk id hid hfaithful
      refine ⟨hfaithful.occupied hres (h'.absent (h'.not_live.mpr hid)) (p := Page.zero) ?_
        (.refl _) .write, congrArg Frame.page (frame_setAt_self _ f _)⟩
      exact Function.update_self ..
    refine ⟨ha'.unpinned (.inr (.inr List.mem_cons_self)), ?_, ?_, fun _ _ _ => trivial,
      fun b _ hb => absurd hb (h'.reliable.not_fails b)⟩
    · intro id rest hfree
      have hid := Disk.not_live_top hfree
      exact hnew hid (h'.created (h'.disk.reused hfree) (h'.reliable.tail rfl) hid
        (fun _ => Disk.live_reused h'.disk hfree) fun _ => Disk.image_reused)
    · intro hfree hvalid
      have hid := s'.disk.not_live_next
      exact hnew hid (h'.created (h'.disk.grown hfree hvalid) (h'.reliable.tail rfl) hid
        (fun _ => Disk.live_grown hfree hvalid) fun _ => Disk.image_grown)
  · rintro c s' ⟨-, rfl, h'⟩
    exact h'

theorem release_faithful (ha : Accounted s guards []) (h : Faithful s guards m) {g : Guard n}
    (hg : g ∈ guards) :
    (release g).Ends s (fun _ s' => Faithful s' (guards.erase g) m)
      (Kept (Faithful · guards m) True) :=
  release_ends (ha.pins_ne_zero hg) (fun _ => (h.unpinnedBy g).requeued _ _)
    fun _ => h.unpinnedBy g

theorem deletePage_faithful (ha : Accounted s guards []) (h : Faithful s guards m) :
    (deletePage id).Ends s (fun _ s' => Faithful s' guards (Function.update m id none))
      (Kept (Faithful · guards m) True) := by
  refine deletePage_ends (fun _ _ _ => h) (fun f ht _ => ?_) fun ht => ?_
  · have hold := ha.tabled _ (mem_of_frameOf? ht)
    have hlive := h.live_of_resident hold
    exact deallocate_ends (fun _ hid _ => absurd hlive.1 hid)
      (fun _ hfree => absurd hfree hlive.2) (fun _ _ => h.deleted hold)
      fun b _ hb => absurd hb (h.reliable.not_fails b)
  · refine deallocate_ends (fun _ _ _ => h) (fun _ hfree => ?_)
      (fun hholds hfree => h.released ⟨hholds, hfree⟩ (h.found.absent ht))
      fun b _ hb => absurd hb (h.reliable.not_fails b)
    have hnone : m id = none := h.not_live.mpr fun hlive => hlive.2 hfree
    rwa [← hnone, Function.update_eq_self]

theorem flushPage_faithful (ha : Accounted s guards []) (h : Faithful s guards m) :
    (flushPage id).Ends s (fun _ s' => Faithful s' guards m) (Kept (Faithful · guards m) True) :=
  flushPage_ends (fun _ => h) fun _ ht =>
    (writeBack_faithful h (ha.tabled _ (mem_of_frameOf? ht))).mono (fun _ _ h' => h'.1)
      fun _ _ => False.elim

theorem flushEntries_faithful (h : Faithful s guards m) {entries : List (PageId × Fin n)}
    (he : ∀ e ∈ entries, (s.frame e.2).resident = some e.1) :
    (flushEntries entries).Ends s (fun _ s' => Faithful s' guards m)
      (Kept (Faithful · guards m) True) := by
  have hkeep : ∀ e ∈ entries, ∀ s' : Pool n,
      (Faithful s' guards m ∧ ∀ e ∈ entries, (s'.frame e.2).resident = some e.1) →
      (writeBack e.2 e.1).Ends s' (fun _ s'' => Faithful s'' guards m ∧
        ∀ e ∈ entries, (s''.frame e.2).resident = some e.1) (Kept (Faithful · guards m) True) := by
    rintro e hmem s' ⟨h', he'⟩
    refine (writeBack_faithful h' (he' e hmem)).mono ?_ fun _ _ => False.elim
    rintro _ s'' ⟨h'', -, hsame⟩
    exact ⟨h'', fun e he => (hsame e.2).trans (he' e he)⟩
  exact (flushEntries_ends ⟨h, he⟩ hkeep).mono (fun _ _ h' => h'.1) fun _ _ h' => h'

end Calls

/-! ### Runs -/

theorem Event.faithful {t : Session n} {e : Event n} {m : Images}
    (ha : Accounted t.pool t.guards []) (h : Faithful t.pool t.guards m) (he : e.Offered t)
    (hcareful : e.Careful t) :
    e.task.Ends t.pool
      (fun o s => Faithful s (o.toList ++ e.kept t.guards) (Entry.images m ⟨t, e, .ok o⟩))
      (Kept (Faithful · t.guards m) True) := by
  cases e with
  | newPage =>
      exact ends_map.mpr ((newPage_faithful ha h).mono (fun _ _ h' => h'.1) fun _ _ h' => h')
  | fetch id access =>
      exact ends_map.mpr
        ((fetch_faithful ha h hcareful access).mono (fun _ _ h' => h'.1) fun _ _ h' => h'.1)
  | deletePage id => exact ends_map.mpr (deletePage_faithful ha h)
  | flushPage id => exact ends_map.mpr (flushPage_faithful ha h)
  | flushAll order =>
      refine ends_map.mpr (flushEntries_faithful h fun e hmem => ?_)
      exact ha.tabled e ((List.Perm.mem_iff he).mp hmem)
  | release g => exact ends_map.mpr (release_faithful ha h he)
  | update g p => exact ends_map.mpr (update_ends (h.updated he.1 he.2 (ha.held g he.1) p))
  | tamper file => exact hcareful.elim

theorem Step.faithful {t u : Session n} {e : Event n} {o : Outcome n} {m : Images}
    (ha : Accounted t.pool t.guards []) (h : Faithful t.pool t.guards m) (hs : Step t e o u)
    (hcareful : e.Careful t) : Faithful u.pool u.guards (Entry.images m ⟨t, e, o⟩) := by
  cases hs with
  | answered he hx => exact (e.faithful ha h he hcareful).of_ok hx
  | refused he hx =>
      have hsame : ∀ c, Entry.images m ⟨t, e, .error c⟩ = m := by
        intro c
        cases e <;> rfl
      rw [hsame]
      exact (e.faithful ha h he hcareful).of_error hx

/-- All along a careful run the pool represents the images that the run has left behind. -/
theorem Run.represents {t u : Session n} {h : List (Entry n)} {m : Images}
    (ha : Accounted t.pool t.guards []) (ht : Faithful t.pool t.guards m) (hrun : Run t h u)
    (hcareful : ∀ x ∈ h, x.event.Careful x.before) :
    Faithful u.pool u.guards (h.foldl Entry.images m) := by
  induction hrun with
  | start => exact ht
  | @step h u v e o hrun hs ih =>
      have hau := (hrun.accounted_all ha).2
      rw [List.forall_mem_append, List.forall_mem_singleton] at hcareful
      rw [List.foldl_concat]
      exact hs.faithful hau (ih hcareful.1) hcareful.2

theorem Run.faithful {t u : Session n} {h : List (Entry n)} (ha : Accounted t.pool t.guards [])
    (ht : Faithful t.pool t.guards fun _ => none) (hrun : Run t h u)
    (hcareful : ∀ x ∈ h, x.event.Careful x.before) : Faithful u.pool u.guards (images h) :=
  hrun.represents ha ht hcareful

/-- A pool of empty frames represents what is in its store. -/
theorem faithful_ofDisk {disk : Disk} {s : Pool n} {m : Images} (h : Pool.ofDisk n disk = .ok s)
    (hsound : disk.Sound) (hreliable : disk.Reliable) (hlive : ∀ id, m id ≠ none ↔ disk.Live id)
    (hstored : ∀ id p, m id = some p →
      (disk.image id).intact = true ∧ (disk.image id).Agrees p) : Faithful s [] m := by
  obtain ⟨hframe, -, -, -, rfl⟩ := ofDisk_parts h
  refine ⟨ofDisk_found h, hsound, hreliable, hlive, ?_, fun id p hp _ => hstored id p hp⟩
  intro f id hf
  rw [hframe] at hf
  cases hf

theorem ofDisk_faithful {disk : Disk} {s : Pool n} (hd : Disk.create none = .ok disk)
    (h : Pool.ofDisk n disk = .ok s) : Faithful s [] fun _ => none := by
  obtain rfl : disk = ⟨.empty, 0, [], []⟩ := (Except.ok.inj hd).symm
  refine faithful_ofDisk h ⟨List.nodup_nil, nofun, Nat.zero_le _⟩ rfl (fun id => ?_) nofun
  exact ⟨fun hno => absurd rfl hno, fun hlive => absurd hlive.1.2 UInt32.not_lt_zero⟩

/-- Along a careful run over a new file a new page is full of zeros, a page in use shows the bytes
last stored in it, whether it stayed in memory or not, and no such page is refused but for want of
frames. -/
theorem Run.eviction_invisible {disk : Disk} {s : Pool n} {h : List (Entry n)} {t : Session n}
    (hd : Disk.create none = .ok disk) (hs : Pool.ofDisk n disk = .ok s)
    (hrun : Run ⟨s, []⟩ h t) (hcareful : ∀ x ∈ h, x.event.Careful x.before) :
    (∀ (g : Guard n) (s' : Pool n), newPage t.pool = .ok g s' → s'.view g = Page.zero) ∧
    (∀ g ∈ t.guards, ∃ p, images h g.page = some p ∧ (t.pool.view g).Agrees p) ∧
    ∀ (id : PageId) (p : Page) (access : Access), images h id = some p →
      (∀ (g : Guard n) (s' : Pool n), fetch id access t.pool = .ok g s' →
        (s'.view g).Agrees p) ∧
      ∀ (e : Error) (s' : Pool n), fetch id access t.pool = .error (.refused e) s' →
        e = .noFreeFrames := by
  have hacc := hrun.accounted hs
  have hfaith := hrun.faithful (ofDisk_accounted hs) (ofDisk_faithful hd hs) hcareful
  refine ⟨?_, ?_, ?_⟩
  · intro g s' hx
    exact ((newPage_faithful hacc hfaith).of_ok hx).2
  · intro g hg
    exact hfaith.memory g.frame g.page (hacc.held g hg)
  · intro id p access hp
    have hfree : id ∉ t.pool.disk.free := ((hfaith.live id).mp (by simp [hp])).2
    have hends := fetch_faithful hacc hfaith hfree access
    refine ⟨fun g s' hx => ?_, fun e s' hx => (hends.of_error hx).2 (by simp [hp]) e rfl⟩
    obtain ⟨hfaith', hpage⟩ := hends.of_ok hx
    have hacc' := (fetch_accounted (L := True) hacc access fun _ _ _ => trivial).of_ok hx
    obtain ⟨q, hq, hagrees⟩ := hfaith'.memory g.frame g.page (hacc'.held g List.mem_cons_self)
    obtain rfl : p = q := Option.some.inj (hp.symm.trans (hpage ▸ hq))
    exact hagrees

/-- One frame and two pages: the first one comes back from the file as it was left. -/
theorem eviction_invisible_one :
    ∃ (s s' : Pool 1) (t : Session 1) (h : List (Entry 1)) (g : Guard 1),
      Pool.ofDisk 1 ⟨.empty, 0, [], []⟩ = .ok s ∧ Run ⟨s, []⟩ h t ∧ t.pool.frameOf? ⟨0⟩ = none ∧
        fetch ⟨0⟩ .read t.pool = .ok g s' ∧
        (s'.view g).Agrees (Page.zero.setHeader (PageHeader.fresh .data)) := by
  let p : Page := Page.zero.setHeader (PageHeader.fresh .data)
  let a : Guard 1 := ⟨0, ⟨0⟩, .write⟩
  let b : Guard 1 := ⟨0, ⟨1⟩, .write⟩
  let file : File := File.empty.writePage 0 Page.zero
  let file' : File := (file.writePage 0 p.stamped).writePage 1 Page.zero
  let s : Pool 1 := ⟨#v[⟨Page.zero, none, 0, false⟩], [], [0], ⟨[]⟩, ⟨.empty, 0, [], []⟩⟩
  let s₁ : Pool 1 := ⟨#v[⟨Page.zero, some ⟨0⟩, 1, false⟩], [(⟨0⟩, 0)], [], ⟨[]⟩, ⟨file, 1, [], []⟩⟩
  let s₂ : Pool 1 := ⟨#v[⟨p, some ⟨0⟩, 1, false⟩], [(⟨0⟩, 0)], [], ⟨[]⟩, ⟨file, 1, [], []⟩⟩
  let s₃ : Pool 1 := ⟨#v[⟨p, some ⟨0⟩, 0, true⟩], [(⟨0⟩, 0)], [], ⟨[0]⟩, ⟨file, 1, [], []⟩⟩
  let s₄ : Pool 1 := ⟨#v[⟨Page.zero, some ⟨1⟩, 1, false⟩], [(⟨1⟩, 0)], [], ⟨[]⟩, ⟨file', 2, [], []⟩⟩
  let s₅ : Pool 1 := ⟨#v[⟨Page.zero, some ⟨1⟩, 0, true⟩], [(⟨1⟩, 0)], [], ⟨[0]⟩, ⟨file', 2, [], []⟩⟩
  have h₁ : Step ⟨s, []⟩ .newPage (.ok (some a)) ⟨s₁, [a]⟩ := .answered trivial rfl
  have h₂ : Step ⟨s₁, [a]⟩ (.update a p) (.ok none) ⟨s₂, [a]⟩ :=
    .answered ⟨List.mem_cons_self, rfl⟩ rfl
  have h₃ : Step ⟨s₂, [a]⟩ (.release a) (.ok none) ⟨s₃, []⟩ :=
    .answered List.mem_cons_self (by with_unfolding_all rfl)
  have h₄ : Step ⟨s₃, []⟩ .newPage (.ok (some b)) ⟨s₄, [b]⟩ :=
    .answered trivial (by with_unfolding_all rfl)
  have h₅ : Step ⟨s₄, [b]⟩ (.release b) (.ok none) ⟨s₅, []⟩ :=
    .answered List.mem_cons_self (by with_unfolding_all rfl)
  have hrun := Run.step (.step (.step (.step (.step .start h₁) h₂) h₃) h₄) h₅
  have hs : Pool.ofDisk 1 ⟨.empty, 0, [], []⟩ = .ok s := rfl
  obtain ⟨hshows, hrefused⟩ := (Run.eviction_invisible rfl hs hrun
    (by simp [Event.Careful])).2.2 ⟨0⟩ p .read rfl
  have hacc : Accounted s₅ [] [] := hrun.accounted hs
  clear_value file'
  have hmiss : s₅.frameOf? ⟨0⟩ = none := rfl
  have hlimit : ∀ f, s₅.frameOf? ⟨0⟩ = some f → (s₅.frame f).pins + 1 = 0 → False := by
    intro f hf
    rw [hmiss] at hf
    cases hf
  have hkept := fetch_accounted hacc .read hlimit
  have hends := hkept.and (fetch_exhausted hacc rfl hmiss)
  cases hx : fetch ⟨0⟩ .read s₅ with
  | ok g s' => exact ⟨s, s', ⟨s₅, []⟩, _, g, hs, hrun, hmiss, hx, hshows g s' hx⟩
  | error c s' =>
      obtain ⟨hkept, hiff⟩ := hends.of_error hx
      cases c with
      | broken c => exact hkept.elim
      | refused e =>
          have hfull := hiff.mp (congrArg Stop.refused (hrefused e s' hx))
          exact absurd hfull.2 nofun

end PagedIndex.Pool
