import PagedIndex.Proofs.Pool.Accounting

/-! # Where pages are

The table and the frames of a pool ought to be inverse to each other.  The table never points at a
wrong frame (`Accounted.tabled`); `Found` is the other half, that no frame holds a page that the
table knows nothing of, or knows elsewhere.  A call keeps it unless it makes a new page out of an
identifier that some other frame still holds, and such a call always breaks it: `Entry.Unshared`
says that this has not happened. -/

namespace PagedIndex.Pool

open PagedIndex.Action

variable {n : Nat}

/-- The table finds the page of every frame. -/
def Found (s : Pool n) : Prop := ∀ f id, (s.frame f).resident = some id → s.frameOf? id = some f

/-- The table and the frames agree on where each page is. -/
def Inverse (s : Pool n) : Prop :=
  ∀ id f, s.frameOf? id = some f ↔ (s.frame f).resident = some id

/-- A new page has an identifier that no other frame holds. -/
def Entry.Unshared (x : Entry n) : Prop :=
  ∀ g, x.event = .newPage → x.outcome = .ok (some g) →
    ∀ f, (x.before.pool.frame f).resident = some g.page → f = g.frame

section Table

variable (s : Pool n) {id old : PageId} {f : Fin n}

theorem frameOf?_forgotten (h : id ≠ old) : (s.forgotten old).frameOf? id = s.frameOf? id := by
  unfold frameOf? forgotten
  simp only
  induction s.table with
  | nil => rfl
  | cons e rest ih =>
      obtain ⟨id', f'⟩ := e
      by_cases hold : id' = old
      · have hne : (id == id') = false := by simpa [hold] using h
        rw [List.filter_cons_of_neg (by simpa using hold), ih, List.lookup_cons, hne]
      · rw [List.filter_cons_of_pos (by simpa using hold), List.lookup_cons, List.lookup_cons, ih]

@[simp] theorem frameOf?_recorded_self : (s.recorded id f).frameOf? id = some f :=
  List.lookup_cons_self

theorem frameOf?_recorded_ne (h : id ≠ old) :
    (s.recorded old f).frameOf? id = s.frameOf? id := by
  rw [← frameOf?_forgotten s h]
  have hne : (id == old) = false := by simpa using h
  simp [frameOf?, recorded, forgotten, List.lookup_cons, hne]

end Table

theorem Accounted.inverse_iff_found {s : Pool n} {guards : List (Guard n)} {hand : List (Fin n)}
    (h : Accounted s guards hand) : Inverse s ↔ Found s :=
  ⟨fun hi f id hf => (hi id f).mpr hf,
    fun hf id f => ⟨fun ht => h.tabled _ (mem_of_frameOf? ht), hf f id⟩⟩

namespace Found

variable {s : Pool n} {f : Fin n} {id old : PageId}

theorem unique (h : Found s) {g : Fin n} (hf : (s.frame f).resident = some id)
    (hg : (s.frame g).resident = some id) : f = g :=
  Option.some.inj ((h f id hf).symm.trans (h g id hg))

theorem absent (h : Found s) (ht : s.frameOf? id = none) (g : Fin n) :
    (s.frame g).resident ≠ some id := by
  intro hg
  rw [h g id hg] at ht
  cases ht

theorem withDisk (h : Found s) (disk : Disk) : Found { s with disk } := h

theorem setAt (h : Found s) {x : Frame} (hres : x.resident = (s.frame f).resident) :
    Found (s.setAt f x) := by
  intro g id hg
  rw [field_setAt s f Frame.resident hres] at hg
  exact h g id hg

theorem written (h : Found s) (f : Fin n) (id : PageId) : Found (s.written f id) :=
  (h.setAt (x := { s.frame f with dirty := false }) rfl).withDisk _

theorem vacated (h : Found s) (hold : (s.frame f).resident = some old) :
    Found ((s.forgotten old).emptied f) := by
  intro g id hg
  by_cases hgf : g = f
  · rw [hgf, emptied, frame_setAt_self] at hg
    cases hg
  · rw [emptied, frame_setAt_ne _ _ _ hgf] at hg
    have hne : id ≠ old := by
      rintro rfl
      exact hgf (h.unique hg hold)
    exact (frameOf?_forgotten s hne).trans (h g id hg)

/-- A page may come into an empty frame exactly when no other frame holds it. -/
theorem occupied_iff (h : Found s) (hres : (s.frame f).resident = none) {p : Page} :
    Found (s.occupied f id p) ↔ ∀ g, (s.frame g).resident ≠ some id := by
  have hframe : ∀ g, g ≠ f → ((s.occupied f id p).frame g) = s.frame g := fun g hgf =>
    frame_setAt_ne s f _ hgf
  have hself : (s.occupied f id p).frameOf? id = some f := frameOf?_recorded_self _
  constructor
  · intro hocc g hg
    have hgf : g ≠ f := by
      rintro rfl
      rw [hres] at hg
      cases hg
    have hfg := hocc g id (by rwa [hframe g hgf])
    exact hgf (Option.some.inj (hfg.symm.trans hself))
  · intro hno g id' hg
    by_cases hgf : g = f
    · subst hgf
      have hid : ((s.occupied g id p).frame g).resident = some id :=
        congrArg Frame.resident (frame_setAt_self s g _)
      rw [hid, Option.some.injEq] at hg
      rw [← hg, hself]
    · rw [hframe g hgf] at hg
      have hne : id' ≠ id := by
        rintro rfl
        exact hno g hg
      exact (frameOf?_recorded_ne _ hne).trans (h g id' hg)

end Found

/-! ### Calls -/

section Calls

variable {s : Pool n} {guards : List (Guard n)} {f : Fin n} {id : PageId}

theorem writeBack_found (h : Found s) :
    (writeBack f id).Ends s
      (fun _ s' => Found s' ∧ ∀ g, (s'.frame g).resident = (s.frame g).resident)
      (Kept Found True) :=
  writeBack_ends (fun _ => ⟨h, fun _ => rfl⟩)
    (fun _ _ => ⟨h.written f id, field_setAt s f Frame.resident (by rfl)⟩) (fun _ _ _ => h)
    fun _ _ _ _ => h.withDisk _

theorem acquire_found (h : Found s) :
    acquire.Ends s
      (fun f s' => Found s' ∧ ∀ g, g ≠ f → (s'.frame g).resident = (s.frame g).resident)
      (Kept Found True) := by
  refine acquire_ends (fun _ _ _ => ⟨h, fun _ _ => rfl⟩) ?_ fun _ _ => h
  intro f rest _ _
  apply vacate_ends
  · intro hres
    refine ⟨h.setAt (x := { s.frame f with resident := none, dirty := false }) hres.symm, ?_⟩
    intro g hgf
    rw [emptied, frame_setAt_ne _ _ _ hgf]
    rfl
  · intro old hold
    refine (writeBack_found (s := { s with lru := ⟨rest⟩ }) h).mono ?_ ?_
    · rintro _ s' ⟨h', hsame⟩
      refine ⟨h'.vacated ((hsame f).trans hold), fun g hgf => ?_⟩
      rw [emptied, frame_setAt_ne _ _ _ hgf]
      exact hsame g
    · intro c s' h'
      cases c with
      | refused e => exact h'
      | broken c => exact h'

theorem fetch_found (ha : Accounted s guards []) (h : Found s) (access : Access) :
    (fetch id access).Ends s (fun _ s' => Found s') (Kept Found True) := by
  refine fetch_ends (pinPage_ends (fun _ => h) ?_ (fun _ _ _ _ _ => trivial) ?_)
  · intro f _ _ _
    exact h.setAt (x := { s.frame f with pins := (s.frame f).pins + 1 }) rfl
  · intro _ ht
    refine ((acquire_accounted (L := True) ha).and (acquire_found h)).mono ?_ fun _ _ he => he.2
    rintro f s' ⟨⟨ha', hres, -⟩, h', hsame⟩
    refine ⟨ha'.unpinned (.inr (.inr List.mem_cons_self)), fun p _ => ?_, fun _ _ => h'⟩
    refine (h'.occupied_iff hres).mpr fun g hg => ?_
    by_cases hgf : g = f
    · rw [hgf, hres] at hg
      cases hg
    · exact h.absent ht g ((hsame g hgf).symm.trans hg)

/-- A new page is where the table says exactly when no other frame holds its identifier. -/
theorem newPage_found (ha : Accounted s guards []) (h : Found s) :
    newPage.Ends s
      (fun g s' => Found s' ↔ ∀ f, (s.frame f).resident = some g.page → f = g.frame)
      (Kept Found True) := by
  refine newPage_ends (((acquire_accounted (L := True) ha).and (acquire_found h)).mono ?_
    fun _ _ he => he.2)
  rintro f s' ⟨⟨ha', hres, -⟩, h', hsame⟩
  have hiff : ∀ (disk : Disk) (id : PageId),
      Found (Pool.occupied { s' with disk } f id Page.zero) ↔
        ∀ g, (s.frame g).resident = some id → g = f := by
    intro disk id
    refine ((h'.withDisk disk).occupied_iff hres).trans ⟨fun hno g hg => ?_, fun hall g hg => ?_⟩
    · by_contra hgf
      exact hno g ((hsame g hgf).trans hg)
    · by_cases hgf : g = f
      · have hfields := hg.symm.trans (congrArg (fun g => (s'.frame g).resident) hgf)
        exact absurd hfields (by simp [hres])
      · exact hgf (hall g ((hsame g hgf).symm.trans hg))
  exact ⟨ha'.unpinned (.inr (.inr List.mem_cons_self)), fun id rest _ => hiff _ id,
    fun _ _ => hiff _ _, fun _ _ _ => trivial, fun _ d _ _ => h'.withDisk d⟩

theorem release_found (ha : Accounted s guards []) (h : Found s) {g : Guard n} (hg : g ∈ guards) :
    (release g).Ends s (fun _ s' => Found s') (Kept Found True) :=
  release_ends (ha.pins_ne_zero hg) (fun _ => h.setAt rfl) fun _ => h.setAt rfl

theorem deletePage_found (ha : Accounted s guards []) (h : Found s) :
    (deletePage id).Ends s (fun _ s' => Found s') (Kept Found True) := by
  have hdisk : ∀ {s' : Pool n}, Found s' →
      (onDisk ((Disk.deallocate id).mapCause Stop.refused)).Ends s' (fun _ s' => Found s')
        (Kept Found True) := fun h' =>
    deallocate_ends (fun _ _ _ => h') (fun _ _ => h') (fun _ _ => h'.withDisk _)
      fun _ _ _ => h'.withDisk _
  refine deletePage_ends (fun _ _ _ => h) (fun f ht _ => hdisk ?_) fun _ => hdisk h
  exact h.vacated (ha.tabled _ (mem_of_frameOf? ht))

theorem flushPage_found (h : Found s) :
    (flushPage id).Ends s (fun _ s' => Found s') (Kept Found True) :=
  flushPage_ends (fun _ => h) fun _ _ => (writeBack_found h).mono (fun _ _ h' => h'.1)
    fun _ _ h' => h'

theorem flushEntries_found (h : Found s) (entries : List (PageId × Fin n)) :
    (flushEntries entries).Ends s (fun _ s' => Found s') (Kept Found True) :=
  flushEntries_ends h fun _ _ _ h' => (writeBack_found h').mono (fun _ _ h' => h'.1)
    fun _ _ h' => h'

end Calls

/-! ### Runs -/

theorem Event.found {t : Session n} {e : Event n} (ha : Accounted t.pool t.guards [])
    (h : Found t.pool) (he : e.Offered t) :
    e.task.Ends t.pool (fun o s => Found s ↔ Entry.Unshared ⟨t, e, .ok o⟩) (Kept Found True) := by
  have hother : ∀ {o : Option (Guard n)} {s : Pool n}, e ≠ .newPage → Found s →
      (Found s ↔ Entry.Unshared ⟨t, e, .ok o⟩) := fun hne hs =>
    ⟨fun _ _ he => absurd he hne, fun _ => hs⟩
  cases e with
  | newPage =>
      refine ends_map.mpr ((newPage_found ha h).mono ?_ fun _ _ he => he)
      intro g s' hiff
      refine hiff.trans ⟨fun hall g' _ hg' => ?_, fun hall => hall g rfl rfl⟩
      cases hg'
      exact hall
  | fetch id access =>
      exact ends_map.mpr ((fetch_found ha h access).mono (fun _ _ => hother nofun) fun _ _ he => he)
  | deletePage id =>
      exact ends_map.mpr ((deletePage_found ha h).mono (fun _ _ => hother nofun) fun _ _ he => he)
  | flushPage id =>
      exact ends_map.mpr ((flushPage_found h).mono (fun _ _ => hother nofun) fun _ _ he => he)
  | flushAll order =>
      exact ends_map.mpr
        ((flushEntries_found h order).mono (fun _ _ => hother nofun) fun _ _ he => he)
  | release g =>
      exact ends_map.mpr ((release_found ha h he).mono (fun _ _ => hother nofun) fun _ _ he => he)
  | update g p => exact ends_map.mpr (update_ends (hother nofun (h.setAt rfl)))
  | tamper file => exact hother nofun (h.withDisk _)

theorem Step.found_iff {t u : Session n} {e : Event n} {o : Outcome n}
    (ha : Accounted t.pool t.guards []) (h : Found t.pool) (hs : Step t e o u) :
    Found u.pool ↔ Entry.Unshared ⟨t, e, o⟩ := by
  cases hs with
  | answered he hx => exact (e.found ha h he).of_ok hx
  | refused he hx => exact ⟨fun _ _ _ => nofun, fun _ => (e.found ha h he).of_error hx⟩

/-- The pages are where the table says all along a run exactly when no new page was shared. -/
theorem Run.found_iff {t u : Session n} {h : List (Entry n)} (ha : Accounted t.pool t.guards [])
    (ht : Found t.pool) (hrun : Run t h u) :
    (∀ x ∈ h, Found x.before.pool) ∧ Found u.pool ↔ ∀ x ∈ h, x.Unshared := by
  induction hrun with
  | start => simpa using ht
  | @step h u v e o hrun hs ih =>
      have hau := (hrun.accounted_all ha).2
      simp only [List.forall_mem_append, List.forall_mem_singleton]
      constructor
      · rintro ⟨⟨hall, hu⟩, hv⟩
        exact ⟨ih.mp ⟨hall, hu⟩, (hs.found_iff hau hu).mp hv⟩
      · rintro ⟨hall, hlast⟩
        obtain ⟨hall, hu⟩ := ih.mpr hall
        exact ⟨⟨hall, hu⟩, (hs.found_iff hau hu).mpr hlast⟩

theorem ofDisk_found {disk : Disk} {s : Pool n} (h : Pool.ofDisk n disk = .ok s) : Found s := by
  intro f id hf
  rw [(ofDisk_parts h).1 f] at hf
  cases hf

end PagedIndex.Pool
