import PagedIndex.Proofs.Disk.Reopen
import PagedIndex.Proofs.Pool.Eviction

/-! # Pages in memory and in the file

Over any file, sound or not, a pool has in memory only pages that are in use, and as long as
nobody else changes the file, a page that is unchanged in memory stands there as it would be
stamped (`Backed`).  Every event keeps this but the fetch of a released page. -/

namespace PagedIndex.Pool

open PagedIndex.Action

variable {n : Nat}

/-- The event asks for no released page. -/
def Event.Spares (t : Session n) : Event n → Prop
  | fetch id _ => id ∉ t.pool.disk.free
  | _ => True

theorem Event.Careful.spares {t : Session n} {e : Event n} (h : e.Careful t) : e.Spares t := by
  cases e with
  | fetch id access => exact h
  | _ => trivial

/-- The pages in memory are in use in the store; if the file is `ours` alone, it has the bytes of
every settled frame. -/
structure Backed (ours : Prop) (s : Pool n) (guards : List (Guard n)) : Prop where
  found : Found s
  nodup : s.disk.free.Nodup
  listed : ∀ id ∈ s.disk.free, s.disk.Holds id
  live : ∀ f id, (s.frame f).resident = some id → s.disk.Live id
  room : ours → s.disk.pageCount.toNat * pageSize ≤ s.disk.file.length
  stored : ours → ∀ f id, (s.frame f).resident = some id → Settled s guards f →
    s.disk.image id = (s.frame f).page.stamped

namespace Backed

variable {ours : Prop} {s : Pool n} {guards guards' : List (Guard n)} {f : Fin n}
  {id old : PageId}

theorem sound (h : Backed ours s guards) (hours : ours) : s.disk.Sound :=
  ⟨h.nodup, h.listed, h.room hours⟩

theorem absent (h : Backed ours s guards) (hid : ¬ s.disk.Live id) (g : Fin n) :
    (s.frame g).resident ≠ some id := fun hg => hid (h.live g id hg)

/-! ### Frames -/

theorem requeued (h : Backed ours s guards) (free : List (Fin n)) (lru : Lru (Fin n)) :
    Backed ours { s with free, lru } guards :=
  ⟨h.found, h.nodup, h.listed, h.live, h.room, h.stored⟩

/-- Counters and marks change, and guards come and go, but no frame becomes settled. -/
theorem remarked (h : Backed ours s guards) {x : Frame} (hpage : x.page = (s.frame f).page)
    (hres : x.resident = (s.frame f).resident)
    (hset : ∀ g, (s.frame g).resident ≠ none → Settled (s.setAt f x) guards' g →
      Settled s guards g) : Backed ours (s.setAt f x) guards' where
  found := h.found.setAt hres
  nodup := h.nodup
  listed := h.listed
  live g id hg := by
    rw [field_setAt s f Frame.resident hres] at hg
    exact h.live g id hg
  room := h.room
  stored hours g id hg hsettled := by
    rw [field_setAt s f Frame.resident hres] at hg
    rw [field_setAt s f Frame.page hpage]
    exact h.stored hours g id hg (hset g (by simp [hg]) hsettled)

theorem repinned (h : Backed ours s guards) (f : Fin n) (g : Guard n) :
    Backed ours (s.repinned f) (g :: guards) :=
  requeued (h.remarked (x := { s.frame f with pins := (s.frame f).pins + 1 }) rfl rfl
    fun _ _ hset => hset.of_repinned) _ _

theorem unpinnedBy (h : Backed ours s guards) (g : Guard n) :
    Backed ours (s.unpinned g.frame (g.access = .write)) (guards.erase g) :=
  h.remarked rfl rfl fun _ _ hset => hset.of_unpinned

theorem updated (h : Backed ours s guards) {g : Guard n} (hg : g ∈ guards)
    (hw : g.access = .write) (p : Page) :
    Backed ours (s.setAt g.frame { s.frame g.frame with page := p }) guards := by
  have hsame := field_setAt s g.frame Frame.resident (x := { s.frame g.frame with page := p }) rfl
  refine ⟨h.found.setAt rfl, h.nodup, h.listed, ?_, h.room, ?_⟩
  · intro f id hf
    rw [hsame] at hf
    exact h.live f id hf
  · intro hours f id hf hset
    by_cases hfg : f = g.frame
    · rw [hset.2 g hg hfg.symm] at hw
      cases hw
    · rw [Settled, frame_setAt_ne _ _ _ hfg] at hset
      rw [frame_setAt_ne _ _ _ hfg] at hf ⊢
      exact h.stored hours f id hf hset

/-! ### Pages leave and come -/

theorem written (h : Backed ours s guards) (hf : (s.frame f).resident = some id) :
    Backed ours (s.written f id) guards := by
  have hres : ∀ g, ((s.written f id).frame g).resident = (s.frame g).resident :=
    field_setAt s f Frame.resident (by rfl)
  have hpage : ∀ g, ((s.written f id).frame g).page = (s.frame g).page :=
    field_setAt s f Frame.page (by rfl)
  refine ⟨h.found.written f id, h.nodup, h.listed, ?_, ?_, ?_⟩
  · intro g id' hg
    rw [hres] at hg
    exact h.live g id' hg
  · exact fun hours => (h.sound hours).put.room
  · intro hours g id' hg hset
    rw [hres] at hg
    rw [hpage]
    by_cases hgf : g = f
    · subst hgf
      obtain rfl : id = id' := Option.some.inj (hf.symm.trans hg)
      exact Disk.image_put_self
    · have hid : id' ≠ id := by
        rintro rfl
        exact hgf (h.found.unique hg hf)
      have himage : (s.written f id).disk.image id' = s.disk.image id' := Disk.image_put_ne hid
      have hframe : (s.written f id).frame g = s.frame g := frame_setAt_ne s f _ hgf
      rw [himage]
      rw [Settled, hframe] at hset
      exact h.stored hours g id' hg hset

/-- The device gives up on a page in memory, which stays unsettled. -/
theorem torn (h : Backed ours s guards) (hf : (s.frame f).resident = some id)
    (hdirty : (s.frame f).dirty = true) (b : Breakdown) : Backed ours (s.torn f id b) guards := by
  refine ⟨h.found.withDisk _, h.nodup, h.listed, h.live, fun hours => ?_, ?_⟩
  · exact (h.sound hours).torn.room
  · intro hours g id' hg hset
    have hid : id' ≠ id := by
      rintro rfl
      rw [h.found.unique hg hf] at hset
      exact Bool.false_ne_true (hset.1.symm.trans hdirty)
    exact (Disk.image_torn_ne hid).trans (h.stored hours g id' hg hset)

theorem vacated (h : Backed ours s guards) (hold : (s.frame f).resident = some old) :
    Backed ours ((s.forgotten old).emptied f) guards := by
  have hframe : ∀ g id, (((s.forgotten old).emptied f).frame g).resident = some id →
      ((s.forgotten old).emptied f).frame g = s.frame g := by
    intro g id hg
    by_cases hgf : g = f
    · rw [hgf, emptied, frame_setAt_self] at hg
      cases hg
    · exact frame_setAt_ne (s.forgotten old) f _ hgf
  refine ⟨h.found.vacated hold, h.nodup, h.listed, ?_, h.room, ?_⟩
  · intro g id hg
    exact h.live g id (hframe g id hg ▸ hg)
  · intro hours g id hg hset
    have hsame := hframe g id hg
    rw [Settled, hsame] at hset
    rw [hsame] at hg ⊢
    exact h.stored hours g id hg hset

/-- A page in use that no frame holds comes into an empty frame under its first guard, with the
bytes of the file if it is to be read only. -/
theorem occupied (h : Backed ours s guards) (hres : (s.frame f).resident = none)
    (hno : ∀ g, (s.frame g).resident ≠ some id) (hlive : s.disk.Live id) {p : Page}
    {access : Access} (himage : ours → access = .read → s.disk.image id = p.stamped) :
    Backed ours (s.occupied f id p) (⟨f, id, access⟩ :: guards) := by
  have hframe : ∀ g, g ≠ f → (s.occupied f id p).frame g = s.frame g := fun g hgf =>
    frame_setAt_ne s f _ hgf
  have hself : (s.occupied f id p).frame f = ⟨p, some id, 1, (s.frame f).dirty⟩ :=
    frame_setAt_self s f _
  refine ⟨(h.found.occupied_iff hres).mpr hno, h.nodup, h.listed, ?_, h.room, ?_⟩
  · intro g id' hg
    by_cases hgf : g = f
    · subst hgf
      rw [hself] at hg
      obtain rfl : id = id' := Option.some.inj hg
      exact hlive
    · rw [hframe g hgf] at hg
      exact h.live g id' hg
  · intro hours g id' hg hset
    by_cases hgf : g = f
    · subst hgf
      rw [hself] at hg ⊢
      obtain rfl : id = id' := Option.some.inj hg
      exact himage hours (hset.2 _ List.mem_cons_self rfl)
    · rw [Settled, hframe g hgf] at hset
      rw [hframe g hgf] at hg ⊢
      exact h.stored hours g id' hg
        ⟨hset.1, fun g' hg' => hset.2 g' (List.mem_cons_of_mem _ hg')⟩

/-! ### The store -/

theorem withDisk (h : Backed ours s guards) {disk : Disk} (hnodup : disk.free.Nodup)
    (hlisted : ∀ id ∈ disk.free, disk.Holds id)
    (hlive : ∀ f id, (s.frame f).resident = some id → disk.Live id)
    (hroom : ours → disk.pageCount.toNat * pageSize ≤ disk.file.length)
    (himage : ours → ∀ f id, (s.frame f).resident = some id →
      disk.image id = s.disk.image id) : Backed ours { s with disk } guards where
  found := h.found.withDisk disk
  nodup := hnodup
  listed := hlisted
  live := hlive
  room := hroom
  stored hours f id hf hset := (himage hours f id hf).trans (h.stored hours f id hf hset)

theorem popped (h : Backed ours s guards) {rest : List PageId} (hfree : s.disk.free = id :: rest) :
    Backed ours { s with disk := { s.disk with free := rest } } guards := by
  refine h.withDisk (List.nodup_cons.mp (hfree ▸ h.nodup)).2 ?_ ?_ h.room fun _ _ _ _ => rfl
  · exact fun other ho => h.listed other (hfree ▸ List.mem_cons_of_mem _ ho)
  · exact fun f other hf => (h.live f other hf).popped hfree

theorem reused (h : Backed ours s guards) {rest : List PageId} (hfree : s.disk.free = id :: rest) :
    Backed ours { s with disk := s.disk.reused id rest } guards := by
  have hpopped := h.popped hfree
  refine h.withDisk hpopped.nodup hpopped.listed hpopped.live ?_ ?_
  · exact fun hours => ((h.sound hours).reused hfree).room
  · intro _ f other hf
    rw [Disk.image_reused, if_neg]
    rintro rfl
    exact h.absent (Disk.not_live_top hfree) f hf

theorem grown (h : Backed ours s guards) (hfree : s.disk.free = [])
    (hvalid : (⟨s.disk.pageCount⟩ : PageId).isValid) :
    Backed ours { s with disk := s.disk.grown } guards := by
  refine h.withDisk h.nodup ?_ ?_ ?_ ?_
  · intro other ho
    exact absurd (hfree ▸ ho : other ∈ []) List.not_mem_nil
  · exact fun f other hf => (Disk.live_grown hfree hvalid).mpr (.inr (h.live f other hf))
  · exact fun hours => ((h.sound hours).grown hfree hvalid).room
  · intro _ f other hf
    rw [Disk.image_grown, if_neg]
    rintro rfl
    exact h.absent s.disk.not_live_next f hf

/-- The device gives up on a page that is not in memory. -/
theorem abandoned (h : Backed ours s guards) (hno : ∀ g, (s.frame g).resident ≠ some id)
    (p : Page) (b : Breakdown) : Backed ours { s with disk := s.disk.torn id p b } guards := by
  refine h.withDisk h.nodup h.listed h.live (fun hours => (h.sound hours).torn.room) ?_
  intro _ f other hf
  refine Disk.image_torn_ne ?_
  rintro rfl
  exact hno f hf

theorem aborted (h : Backed ours s guards) {b : Breakdown} {d : Disk}
    (hd : s.disk.Aborted b d) : Backed ours { s with disk := d } guards := by
  cases hd with
  | reuse hfree =>
      exact (h.popped hfree).abandoned (h.absent (Disk.not_live_top hfree)) Page.zero b
  | grow hfree => exact h.abandoned (h.absent s.disk.not_live_next) Page.zero b

theorem released (h : Backed ours s guards) (hid : s.disk.Live id)
    (hno : ∀ g, (s.frame g).resident ≠ some id) :
    Backed ours { s with disk := s.disk.released id } guards := by
  have hne : ∀ f other, (s.frame f).resident = some other → other ≠ id := by
    rintro f other hf rfl
    exact hno f hf
  refine h.withDisk (List.nodup_cons.mpr ⟨hid.2, h.nodup⟩) ?_ ?_ ?_ ?_
  · intro other ho
    rcases List.mem_cons.mp ho with rfl | ho
    · exact hid.1
    · exact h.listed other ho
  · exact fun f other hf => Disk.live_released.mpr ⟨hne f other hf, h.live f other hf⟩
  · exact fun hours => ((h.sound hours).released hid).room
  · exact fun _ f other hf => Disk.image_put_ne (hne f other hf)

theorem absent_discarded (h : Backed ours s guards) (hold : (s.frame f).resident = some old)
    (g : Fin n) : ((s.discarded old f).frame g).resident ≠ some old := by
  intro hg
  by_cases hgf : g = f
  · have hnone : ((s.discarded old f).frame f).resident = none :=
      congrArg Frame.resident (frame_setAt_self _ f _)
    rw [hgf, hnone] at hg
    cases hg
  · have hframe : (s.discarded old f).frame g = s.frame g := frame_setAt_ne _ f _ hgf
    exact hgf (h.found.unique (hframe ▸ hg) hold)

theorem discarded (h : Backed ours s guards) (hold : (s.frame f).resident = some old) :
    Backed ours (s.discarded old f) guards := (h.vacated hold).requeued _ _

/-- Somebody else replaces the file, which is not `ours` alone then. -/
theorem tampered (h : Backed ours s guards) (hours : ¬ ours) (file : File) :
    Backed ours { s with disk := { s.disk with file } } guards :=
  h.withDisk h.nodup h.listed h.live (fun ho => absurd ho hours) fun ho => absurd ho hours

end Backed

/-! ### Calls -/

section Calls

variable {ours : Prop} {s : Pool n} {guards : List (Guard n)} {f : Fin n} {id : PageId}

/-- A page in memory has a place in the file, so only the device keeps it from being written. -/
theorem writeBack_backed (h : Backed ours s guards) (hf : (s.frame f).resident = some id) :
    (writeBack f id).Ends s
      (fun _ s' => Backed ours s' guards ∧ ∀ g, (s'.frame g).resident = (s.frame g).resident)
      fun c s' => ∃ b, c = .refused (.file b.cause) ∧ (s.frame f).dirty = true ∧
        s' = s.torn f id b :=
  writeBack_ends (fun _ => ⟨h, fun _ => rfl⟩)
    (fun _ _ => ⟨h.written hf, field_setAt s f Frame.resident (by rfl)⟩)
    (fun _ hid _ => absurd (h.live f id hf).1 hid) fun b hdirty _ _ => ⟨b, rfl, hdirty, rfl⟩

theorem writeBack_kept (h : Backed ours s guards) (hf : (s.frame f).resident = some id) :
    (writeBack f id).Ends s
      (fun _ s' => Backed ours s' guards ∧ ∀ g, (s'.frame g).resident = (s.frame g).resident)
      (Kept (Backed ours · guards) True) := by
  refine (writeBack_backed h hf).mono (fun _ _ h' => h') ?_
  rintro c s' ⟨b, rfl, hdirty, rfl⟩
  exact h.torn hf hdirty b

theorem acquire_backed (h : Backed ours s guards) :
    acquire.Ends s (fun _ s' => Backed ours s' guards) (Kept (Backed ours · guards) True) := by
  refine acquire_ends (fun _ _ _ => h.requeued _ _) ?_ fun _ _ => h
  intro f rest _ _
  have h' : Backed ours { s with lru := ⟨rest⟩ } guards := h.requeued _ _
  refine vacate_ends (fun hres => ?_) fun old hold => ?_
  · exact h'.remarked rfl hres.symm fun _ hg hset => hset.of_emptied hres hg
  · refine (writeBack_kept h' hold).mono ?_ ?_
    · rintro _ s' ⟨hs', hsame⟩
      exact hs'.vacated ((hsame f).trans hold)
    · intro c s' hs'
      cases c with
      | refused e => exact Backed.requeued hs' _ _
      | broken c => trivial

theorem fetch_backed (ha : Accounted s guards []) (h : Backed ours s guards)
    (hid : id ∉ s.disk.free) (access : Access) :
    (fetch id access).Ends s (fun g s' => Backed ours s' (g :: guards))
      (Kept (Backed ours · guards) True) := by
  refine fetch_ends (pinPage_ends (fun _ => h) ?_ (fun _ _ _ _ _ => trivial) ?_)
  · exact fun f _ _ _ => h.repinned f _
  · intro _ ht
    refine (((acquire_accounted (L := True) ha).and acquire_disk).and
      ((acquire_found h.found).and (acquire_backed h))).mono ?_ ?_
    · rintro f s' ⟨⟨⟨ha', hres, -⟩, hfree, -⟩, ⟨-, hsame⟩, h'⟩
      have hno : ∀ g, (s'.frame g).resident ≠ some id := by
        intro g hg
        by_cases hgf : g = f
        · rw [hgf, hres] at hg
          cases hg
        · exact h.found.absent ht g ((hsame g hgf).symm.trans hg)
      refine ⟨ha'.unpinned (.inr (.inr List.mem_cons_self)), fun p hp => ?_,
        fun _ _ => h'.requeued _ _⟩
      have hlive : s'.disk.Live id := ⟨Disk.holds_of_read hp, by rwa [hfree]⟩
      obtain ⟨himage, hin⟩ := Disk.image_of_read hp
      exact h'.occupied hres hno hlive fun _ _ => himage.trans (Page.stamped_of_intact hin).symm
    · rintro c s' ⟨-, -, hs'⟩
      exact hs'

theorem newPage_backed (ha : Accounted s guards []) (h : Backed ours s guards) :
    newPage.Ends s (fun g s' => Backed ours s' (g :: guards))
      (Kept (Backed ours · guards) True) := by
  refine newPage_ends (((acquire_accounted (L := True) ha).and (acquire_backed h)).mono ?_ ?_)
  · rintro f s' ⟨⟨ha', hres, -⟩, h'⟩
    refine ⟨ha'.unpinned (.inr (.inr List.mem_cons_self)), ?_, ?_, fun _ _ _ => trivial,
      fun b d _ hd => (h'.aborted hd).requeued _ _⟩
    · intro id rest hfree
      have hid := Disk.not_live_top hfree
      have hlive : (s'.disk.reused id rest).Live id :=
        ⟨h'.listed id (hfree ▸ List.mem_cons_self), (List.nodup_cons.mp (hfree ▸ h'.nodup)).1⟩
      exact (h'.reused hfree).occupied hres (h'.absent hid) hlive fun _ => nofun
    · intro hfree hvalid
      have hid := s'.disk.not_live_next
      have hlive := (Disk.live_grown hfree hvalid).mpr (.inl rfl)
      exact (h'.grown hfree hvalid).occupied hres (h'.absent hid) hlive fun _ => nofun
  · rintro c s' ⟨-, hs'⟩
    exact hs'

theorem release_backed (ha : Accounted s guards []) (h : Backed ours s guards) {g : Guard n}
    (hg : g ∈ guards) :
    (release g).Ends s (fun _ s' => Backed ours s' (guards.erase g))
      (Kept (Backed ours · guards) True) :=
  release_ends (ha.pins_ne_zero hg) (fun _ => (h.unpinnedBy g).requeued _ _)
    fun _ => h.unpinnedBy g

theorem deletePage_backed (ha : Accounted s guards []) (h : Backed ours s guards) :
    (deletePage id).Ends s (fun _ s' => Backed ours s' guards)
      (Kept (Backed ours · guards) True) := by
  refine deletePage_ends (fun _ _ _ => h) (fun f ht _ => ?_) fun ht => ?_
  · have hold := ha.tabled _ (mem_of_frameOf? ht)
    have hlive := h.live f id hold
    have hout := h.discarded hold
    have hno := h.absent_discarded hold
    exact deallocate_ends (fun _ hid _ => absurd hlive.1 hid) (fun _ hfree => absurd hfree hlive.2)
      (fun _ _ => hout.released hlive hno) fun b _ _ => hout.abandoned hno _ b
  · have hno := h.found.absent ht
    exact deallocate_ends (fun _ _ _ => h) (fun _ _ => h)
      (fun hholds hfree => h.released ⟨hholds, hfree⟩ hno) fun b _ _ => h.abandoned hno _ b

theorem flushPage_backed (ha : Accounted s guards []) (h : Backed ours s guards) :
    (flushPage id).Ends s (fun _ s' => Backed ours s' guards) (Kept (Backed ours · guards) True) :=
  flushPage_ends (fun _ => h) fun _ ht =>
    (writeBack_kept h (ha.tabled _ (mem_of_frameOf? ht))).mono (fun _ _ h' => h'.1)
      fun _ _ h' => h'

theorem flushEntries_backed (h : Backed ours s guards) {entries : List (PageId × Fin n)}
    (he : ∀ e ∈ entries, (s.frame e.2).resident = some e.1) :
    (flushEntries entries).Ends s (fun _ s' => Backed ours s' guards)
      (Kept (Backed ours · guards) True) := by
  have hkeep : ∀ e ∈ entries, ∀ s' : Pool n,
      (Backed ours s' guards ∧ ∀ e ∈ entries, (s'.frame e.2).resident = some e.1) →
      (writeBack e.2 e.1).Ends s' (fun _ s'' => Backed ours s'' guards ∧
        ∀ e ∈ entries, (s''.frame e.2).resident = some e.1) (Kept (Backed ours · guards) True) := by
    rintro e hmem s' ⟨h', he'⟩
    refine (writeBack_kept h' (he' e hmem)).mono ?_ fun _ _ h' => h'
    rintro _ s'' ⟨h'', hsame⟩
    exact ⟨h'', fun e he => (hsame e.2).trans (he' e he)⟩
  exact (flushEntries_ends ⟨h, he⟩ hkeep).mono (fun _ _ h' => h'.1) fun _ _ h' => h'

end Calls

/-! ### Runs -/

theorem Event.backed {ours : Prop} {t : Session n} {e : Event n}
    (ha : Accounted t.pool t.guards []) (h : Backed ours t.pool t.guards) (he : e.Offered t)
    (hspares : e.Spares t) (hours : ours → ∀ file, e ≠ .tamper file) :
    e.task.Ends t.pool (fun o s => Backed ours s (o.toList ++ e.kept t.guards))
      (Kept (Backed ours · t.guards) True) := by
  cases e with
  | newPage => exact ends_map.mpr (newPage_backed ha h)
  | fetch id access => exact ends_map.mpr (fetch_backed ha h hspares access)
  | deletePage id => exact ends_map.mpr (deletePage_backed ha h)
  | flushPage id => exact ends_map.mpr (flushPage_backed ha h)
  | flushAll order =>
      refine ends_map.mpr (flushEntries_backed h fun e hmem => ?_)
      exact ha.tabled e ((List.Perm.mem_iff he).mp hmem)
  | release g => exact ends_map.mpr (release_backed ha h he)
  | update g p => exact ends_map.mpr (update_ends (h.updated he.1 he.2 p))
  | tamper file => exact h.tampered (fun ho => hours ho file rfl) file

theorem Step.backed {ours : Prop} {t u : Session n} {e : Event n} {o : Outcome n}
    (ha : Accounted t.pool t.guards []) (h : Backed ours t.pool t.guards) (hs : Step t e o u)
    (hspares : e.Spares t) (hours : ours → ∀ file, e ≠ .tamper file) :
    Backed ours u.pool u.guards := by
  cases hs with
  | answered he hx => exact (e.backed ha h he hspares hours).of_ok hx
  | refused he hx => exact (e.backed ha h he hspares hours).of_error hx

theorem ofDisk_backed {ours : Prop} {disk : Disk} {s : Pool n} (hd : disk.Sound)
    (h : Pool.ofDisk n disk = .ok s) : Backed ours s [] := by
  obtain ⟨hframe, -, -, -, rfl⟩ := ofDisk_parts h
  have hnone : ∀ f id, (s.frame f).resident ≠ some id := by
    intro f id hf
    rw [hframe] at hf
    cases hf
  exact ⟨ofDisk_found h, hd.nodup, hd.listed, fun f id hf => absurd hf (hnone f id),
    fun _ => hd.room, fun _ f id hf => absurd hf (hnone f id)⟩

/-- Along every run over a file, whatever is in it, that fetches no released page. -/
theorem Run.backed {disk : Disk} {s : Pool n} {h : List (Entry n)} {t : Session n}
    (hd : disk.Sound) (hs : Pool.ofDisk n disk = .ok s) (hrun : Run ⟨s, []⟩ h t)
    (hspares : ∀ x ∈ h, x.event.Spares x.before) {ours : Prop}
    (hours : ours → ∀ x ∈ h, ∀ other, x.event ≠ .tamper other) :
    (∀ x ∈ h, Backed ours x.before.pool x.before.guards) ∧ Backed ours t.pool t.guards := by
  have hall := hrun.invariant
    (I := fun t => Accounted t.pool t.guards [] ∧ Backed ours t.pool t.guards)
    (P := fun x => x.event.Spares x.before ∧ (ours → ∀ other, x.event ≠ .tamper other))
    ⟨ofDisk_accounted hs, ofDisk_backed hd hs⟩
    (fun x v ⟨hx, hfile⟩ ⟨ha, hb⟩ hstep => ⟨hstep.accounted ha, hstep.backed ha hb hx hfile⟩)
    fun x hx => ⟨hspares x hx, fun ho => hours ho x hx⟩
  exact ⟨fun x hx => (hall.1 x hx).2, hall.2.2⟩

end PagedIndex.Pool
