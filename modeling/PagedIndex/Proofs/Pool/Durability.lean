import PagedIndex.Proofs.Pool.Effects
import PagedIndex.Proofs.Pool.Eviction

/-! # What outlives a pool

When every page is flushed and no guard is left, the file alone holds the images (`Saved`), and a
pool over the file opened again reads each of them back.  Which pages are in use is not in the
file, though: a page that was stored with the mark of a released one counts as released from then
on.  `Run.durable` says that such pages, and no others, can be handed out to a second owner. -/

namespace PagedIndex.Pool

open PagedIndex.Action

variable {n : Nat}

/-- The event hands out the page `id`. -/
def Entry.HandsOut (x : Entry n) (id : PageId) : Prop :=
  ∃ g, x.event = .newPage ∧ x.outcome = .ok (some g) ∧ g.page = id

/-- The event releases the page `id`. -/
def Entry.Deletes (x : Entry n) (id : PageId) : Prop :=
  x.event = .deletePage id ∧ x.outcome = .ok none

/-- Until it is deleted, the page `id` is nobody's new page. -/
def Reserves (s : Pool n) (id : PageId) : Prop :=
  ∀ (h : List (Entry n)) (t : Session n), Run ⟨s, []⟩ h t → (∀ x ∈ h, ¬ x.Deletes id) →
    ∀ x ∈ h, ¬ x.HandsOut id

/-- The file holds the images, and the marks of all released pages. -/
structure Saved (d : Disk) (m : Images) : Prop where
  marked : d.Marked
  live : ∀ id, m id ≠ none ↔ d.Live id
  stored : ∀ id p, m id = some p → (d.image id).intact = true ∧ (d.image id).Agrees p

/-- The images that do not look released. -/
def survivors (m : Images) : Images := fun id => (m id).filter fun p => p.kind ≠ .free

/-! ### Flushing -/

section Flush

variable {s : Pool n} {guards : List (Guard n)} {m : Images} {f : Fin n} {id : PageId}

theorem writeBack_clean :
    (writeBack f id).Ends s
      (fun _ s' => ∀ g, (s.frame g).dirty = false → (s'.frame g).dirty = false)
      fun _ _ => True := by
  refine writeBack_ends (fun _ _ hg => hg) (fun _ _ g hg => ?_) (fun _ _ _ => trivial)
    fun _ _ _ _ => trivial
  show ((s.setAt f _).frame g).dirty = false
  rw [frame_setAt]
  split
  · rfl
  · exact hg

theorem flushEntries_clean (h : Faithful s guards m) {entries : List (PageId × Fin n)}
    (he : ∀ e ∈ entries, (s.frame e.2).resident = some e.1) :
    (flushEntries entries).Ends s
      (fun _ s' => (∀ g, (s'.frame g).resident = (s.frame g).resident) ∧
        ∀ g, (s.frame g).dirty = false ∨ g ∈ entries.map Prod.snd → (s'.frame g).dirty = false)
      fun _ _ => False := by
  induction entries generalizing s with
  | nil => exact ⟨fun _ => rfl, fun g hg => hg.resolve_right List.not_mem_nil⟩
  | cons e rest ih =>
      unfold flushEntries
      rw [ends_bind]
      refine ((writeBack_faithful h (he e List.mem_cons_self)).and writeBack_clean).mono ?_
        fun _ _ => And.left
      rintro _ s' ⟨⟨h', hdone, hsame⟩, hkept⟩
      refine (ih h' fun e' he' => ?_).mono ?_ fun _ _ => False.elim
      · exact (hsame e'.2).trans (he e' (List.mem_cons_of_mem _ he'))
      · rintro _ s'' ⟨hsame', hrest⟩
        refine ⟨fun g => (hsame' g).trans (hsame g), fun g hg => hrest g ?_⟩
        rw [List.map_cons, List.mem_cons] at hg
        rcases hg with hg | rfl | hg
        · exact .inl (hkept g hg)
        · exact .inl hdone
        · exact .inr hg

end Flush

theorem Run.marked {t u : Session n} {h : List (Entry n)} {m : Images}
    (ha : Accounted t.pool t.guards []) (ht : Faithful t.pool t.guards m)
    (hm : t.pool.disk.Marked) (hrun : Run t h u)
    (hcareful : ∀ x ∈ h, x.event.Careful x.before) : u.pool.disk.Marked := by
  induction hrun with
  | start => exact hm
  | @step h u v e o hrun hs ih =>
      rw [List.forall_mem_append, List.forall_mem_singleton] at hcareful
      have hau := (hrun.accounted_all ha).2
      have hu := hrun.represents ha ht hcareful.1
      refine (hs.effect hau).marked hu.reliable (ih hcareful.1) (fun _ _ => hu.live_of_resident) ?_
      rintro file rfl
      exact hcareful.2

/-- When all pages are flushed and no guard is left, the file holds what the run has left behind. -/
theorem Run.flushed {disk : Disk} {s : Pool n} {h : List (Entry n)} {t : Session n}
    {order : List (PageId × Fin n)} (hd : Disk.create none = .ok disk)
    (hs : Pool.ofDisk n disk = .ok s) (hrun : Run ⟨s, []⟩ h t)
    (hcareful : ∀ x ∈ h, x.event.Careful x.before) (hguards : t.guards = [])
    (horder : order.Perm t.pool.table) :
    (flushEntries order).Answers t.pool fun _ s' => Saved s'.disk (images h) := by
  have hacc := hrun.accounted hs
  have hfaith := hrun.faithful (ofDisk_accounted hs) (ofDisk_faithful hd hs) hcareful
  rw [hguards] at hfaith
  have hentries : ∀ e ∈ order, (t.pool.frame e.2).resident = some e.1 := fun e he =>
    hacc.tabled e (horder.mem_iff.mp he)
  obtain ⟨-, -, -, -, hdisk⟩ := ofDisk_parts hs
  have hmarked : t.pool.disk.Marked := hrun.marked (ofDisk_accounted hs) (ofDisk_faithful hd hs)
    (hdisk ▸ Disk.create_marked hd) hcareful
  refine answers_iff.mpr ?_
  refine (((flushEntries_clean hfaith hentries).and (flushEntries_faithful hfaith hentries)).and
    (flushEntries_wrote hentries)).mono ?_ fun _ _ hno => hno.1.1
  rintro _ s' ⟨⟨⟨hsame, hclean⟩, h'⟩, hwrote⟩
  have hout := hwrote.marked hfaith.reliable hmarked fun _ _ => hfaith.live_of_resident
  refine ⟨hout, h'.live, fun id p hp => ?_⟩
  refine h'.stored id p hp fun f hf => ⟨hclean f (.inr ?_), nofun⟩
  have htable := mem_of_frameOf? (hfaith.found f id ((hsame f).symm.trans hf))
  exact List.mem_map_of_mem (f := Prod.snd) (horder.mem_iff.mpr htable)

/-! ### The reopened file -/

theorem survivors_eq_some {m : Images} {id : PageId} {p : Page} :
    survivors m id = some p ↔ m id = some p ∧ p.kind ≠ .free := by
  rw [survivors, Option.filter_eq_some_iff, decide_eq_true_iff]

namespace Saved

variable {d : Disk} {m : Images} {s : Pool n} {id : PageId} {p : Page}

theorem live_of_eq (h : Saved d m) (hp : m id = some p) : d.Live id :=
  (h.live id).mp (by simp [hp])

theorem kind_eq (h : Saved d m) (hp : m id = some p) : (d.image id).kind = p.kind :=
  (h.stored id p hp).2.kind

theorem survivors_live (h : Saved d m) : survivors m id ≠ none ↔ d.reopened.Live id := by
  rw [Disk.live_reopened, Option.ne_none_iff_exists']
  constructor
  · rintro ⟨p, hp⟩
    obtain ⟨hm, hkind⟩ := survivors_eq_some.mp hp
    exact ⟨(h.live_of_eq hm).1, by rwa [h.kind_eq hm]⟩
  · rintro ⟨hid, hkind⟩
    obtain ⟨p, hp⟩ := Option.ne_none_iff_exists'.mp
      ((h.live id).mpr ⟨hid, fun hfree => hkind (h.marked.marked id hfree)⟩)
    rw [h.kind_eq hp] at hkind
    exact ⟨p, survivors_eq_some.mpr ⟨hp, hkind⟩⟩

/-- A pool over the file opened again represents the images that do not look released. -/
theorem faithful (h : Saved d m) (hs : Pool.ofDisk n d.reopened = .ok s) :
    Faithful s [] (survivors m) :=
  faithful_ofDisk hs (.reopened h.marked.exact) rfl (fun _ => h.survivors_live) fun id p hp =>
    h.stored id p (survivors_eq_some.mp hp).1

theorem fetch_answers (h : Saved d m) (hs : Pool.ofDisk n d.reopened = .ok s) (hn : 0 < n)
    (hp : m id = some p) (access : Access) :
    (fetch id access).Answers s fun g s' => (s'.view g).Agrees p := by
  obtain ⟨hframe, htable, hfree, -, hdisk⟩ := ofDisk_parts hs
  obtain ⟨hin, hagrees⟩ := h.stored id p hp
  have hid : d.reopened.Holds id := (h.live_of_eq hp).1
  have hread : s.disk.read id = .ok (d.image id) := by
    rw [hdisk]
    exact Disk.read_image (.reopened h.marked.exact) hid hin
  have hmiss : s.frameOf? id = none := by rw [frameOf?, htable, List.lookup_nil]
  have hsome : s.free ≠ [] := by
    rw [hfree]
    exact List.ne_nil_of_mem (List.mem_finRange ⟨0, hn⟩)
  obtain ⟨f, rest, hfirst⟩ := List.exists_cons_of_ne_nil hsome
  refine answers_iff.mpr (fetch_ends (pinPage_miss hid.1 hmiss (acquire_free hfirst ?_)))
  refine ⟨congrArg Frame.pins (hframe f), fun q hq => ?_, fun e he => ?_⟩
  · obtain rfl : d.image id = q := Except.ok.inj (hread.symm.trans hq)
    have hview : Pool.view (Pool.occupied { s with free := rest } f id (d.image id))
        ⟨f, id, access⟩ = d.image id := congrArg Frame.page (frame_setAt_self _ f _)
    rwa [hview]
  · rw [hread] at he
    cases he

end Saved

/-! ### New owners -/

section Owners

variable {s : Pool n} {guards : List (Guard n)} {m : Images} {id : PageId} {rest : List PageId}

theorem newPage_pops (ha : Accounted s guards []) (h : Faithful s guards m)
    (hfree : s.disk.free = id :: rest) (hframe : ¬ s.Exhausted) :
    newPage.Ends s (fun g s' => g.page = id ∧ s'.disk.free = rest) fun _ _ => False := by
  refine newPage_ends ((((acquire_accounted (L := True) ha).and acquire_disk).and
    ((acquire_faithful ha h).and acquire_exhausted)).mono ?_ ?_)
  · rintro f s' ⟨⟨⟨ha', -⟩, hsame, -⟩, h', -⟩
    rw [hfree] at hsame
    refine ⟨ha'.unpinned (.inr (.inr List.mem_cons_self)), ?_, ?_, ?_,
      fun b _ hb => absurd hb (h'.reliable.not_fails b)⟩
    · intro id' rest' hs'
      obtain ⟨rfl, rfl⟩ := List.cons.inj (hsame.symm.trans hs')
      exact ⟨rfl, rfl⟩
    · intro hnil
      rw [hsame] at hnil
      cases hnil
    · intro hnil
      rw [hsame] at hnil
      cases hnil
  · rintro c s' ⟨-, ⟨rfl, -⟩, hfull⟩
    exact hframe (hfull.mp rfl)

theorem Run.live_kept {t u : Session n} {h : List (Entry n)}
    (ha : Accounted t.pool t.guards []) (hid : t.pool.disk.Live id) (hrun : Run t h u)
    (hkeep : ∀ x ∈ h, ¬ x.Deletes id) :
    (∀ x ∈ h, ¬ x.HandsOut id) ∧ u.pool.disk.Live id := by
  induction hrun with
  | start => exact ⟨by simp, hid⟩
  | @step h u v e o hrun hs ih =>
      rw [List.forall_mem_append, List.forall_mem_singleton] at hkeep ⊢
      obtain ⟨hold, hlive⟩ := ih hkeep.1
      obtain ⟨hlive', hnew⟩ := (hs.effect (hrun.accounted_all ha).2).live_kept hlive
        fun he ho => hkeep.2 ⟨he, ho⟩
      exact ⟨⟨hold, fun ⟨g, he, ho, hg⟩ => hnew g he ho hg⟩, hlive'⟩

theorem exists_pop (hn : 0 < n) (ha : Accounted s [] []) (h : Faithful s [] m)
    (hfree : s.disk.free = id :: rest) :
    ∃ (g : Guard n) (t : Session n) (s' : Pool n), g.page = id ∧
      Run ⟨s, []⟩ [⟨⟨s, []⟩, .newPage, .ok (some g)⟩, ⟨t, .release g, .ok none⟩] ⟨s', []⟩ ∧
      s'.disk.free = rest := by
  have hframe : ¬ s.Exhausted := fun hfull => by
    obtain ⟨g, hg, -⟩ := ha.exhausted_iff.mp hfull ⟨0, hn⟩
    cases hg
  obtain ⟨g, u, hnew, rfl, hrest⟩ := (newPage_pops ha h hfree hframe).answers
  have hnew' : Step ⟨s, []⟩ .newPage (.ok (some g)) ⟨u, [g]⟩ :=
    .answered trivial (by simp [Event.task, Functor.map, EStateM.map, hnew])
  have hends : (release g).Ends u (fun _ s' => s'.disk = u.disk) fun _ _ => False :=
    release_ends ((hnew'.accounted ha).pins_ne_zero List.mem_cons_self) (fun _ => rfl) fun _ => rfl
  obtain ⟨_, s', hdrop, hsame⟩ := hends.answers
  have hdropped : (Event.release g).task u = .ok none s' := by
    simp [Event.task, Functor.map, EStateM.map, hdrop]
  have hkept : (Event.release g).kept [g] = [] := List.erase_cons_head ..
  have hdrop' := Step.answered (t := ⟨u, [g]⟩) List.mem_cons_self hdropped
  rw [hkept] at hdrop'
  exact ⟨g, _, s', rfl, .step (.step .start hnew') hdrop', hsame ▸ hrest⟩

theorem exists_handsOut {stack : List PageId} (hn : 0 < n) (ha : Accounted s [] [])
    (h : Faithful s [] m) (hfree : s.disk.free = stack ++ id :: rest) :
    ∃ (r : List (Entry n)) (t : Session n), Run ⟨s, []⟩ r t ∧ (∀ x ∈ r, ¬ x.Deletes id) ∧
      ∃ x ∈ r, x.HandsOut id := by
  -- The pages above it on the stack come first, each dropped again so that one frame is enough.
  induction stack generalizing s m with
  | nil =>
      obtain ⟨g, t, s', hg, hrun, -⟩ := exists_pop hn ha h hfree
      refine ⟨_, _, hrun, ?_, _, List.mem_cons_self, g, rfl, rfl, hg⟩
      simp [Entry.Deletes]
  | cons top stack ih =>
      obtain ⟨g, t, s', -, hrun, hrest⟩ := exists_pop hn ha h hfree
      have h' := hrun.represents ha h (by simp [Event.Careful])
      obtain ⟨r, t', hrun', hkeep, x, hx, hout⟩ := ih (hrun.accounted_all ha).2 h' hrest
      refine ⟨_, t', hrun.trans hrun', ?_, x, List.mem_append_right _ hx, hout⟩
      rw [List.forall_mem_append]
      exact ⟨by simp [Entry.Deletes], hkeep⟩

/-- A pool over the file opened again reserves the pages in use, those excepted that look
released. -/
theorem Saved.reserves_iff {d : Disk} {p : Page} (h : Saved d m)
    (hs : Pool.ofDisk n d.reopened = .ok s) (hn : 0 < n) (hp : m id = some p) :
    Reserves s id ↔ p.kind ≠ .free := by
  have ha := ofDisk_accounted hs
  obtain ⟨-, -, -, -, hdisk⟩ := ofDisk_parts hs
  have hid : d.Holds id := (h.live_of_eq hp).1
  constructor
  · intro hres hkind
    have hfree : id ∈ s.disk.free := by
      rw [hdisk, Disk.mem_free_reopened, h.kind_eq hp]
      exact ⟨hid, hkind⟩
    obtain ⟨stack, rest, hstack⟩ := List.append_of_mem hfree
    obtain ⟨r, t, hrun, hkeep, x, hx, hout⟩ := exists_handsOut hn ha (h.faithful hs) hstack
    exact hres r t hrun hkeep x hx hout
  · intro hkind r t hrun hkeep
    have hlive : s.disk.Live id := by
      rw [hdisk, Disk.live_reopened, h.kind_eq hp]
      exact ⟨hid, hkind⟩
    exact (Run.live_kept ha hlive hrun hkeep).1

end Owners

/-! ### Runs -/

theorem fetch_shows {s : Pool n} {guards : List (Guard n)} {m : Images} {id : PageId} {p : Page}
    (ha : Accounted s guards []) (h : Faithful s guards m) (hp : m id = some p) (access : Access) :
    (fetch id access).Ends s (fun g s' => (s'.view g).Agrees p)
      fun c _ => ∀ e, c = .refused e → e = .noFreeFrames := by
  have hid : id ∉ s.disk.free := ((h.live id).mp (by simp [hp])).2
  refine ((fetch_accounted (L := True) ha access fun _ _ _ => trivial).and
    (fetch_faithful ha h hid access)).mono ?_ fun _ _ he => he.2.2 (by simp [hp])
  rintro g s' ⟨ha', h', hpage⟩
  obtain ⟨q, hq, hagrees⟩ := h'.memory g.frame g.page (ha'.held g List.mem_cons_self)
  obtain rfl : p = q := Option.some.inj (hp.symm.trans (hpage ▸ hq))
  exact hagrees

/-- After a careful run over a new file whose pages are flushed when no guard is left, the file can
be opened again, and every page in use can be read back by a new pool of any size with the bytes
last stored in it.  The new pool hands the page out to nobody else before it is deleted, unless
these bytes carry the mark of a released page: then it can.  As long as no page is fetched that
counts as released, all others go on showing the bytes last stored in them. -/
theorem Run.durable {disk : Disk} {s : Pool n} {h : List (Entry n)} {t : Session n}
    {order : List (PageId × Fin n)} (hd : Disk.create none = .ok disk)
    (hs : Pool.ofDisk n disk = .ok s) (hrun : Run ⟨s, []⟩ h t)
    (hcareful : ∀ x ∈ h, x.event.Careful x.before) (hguards : t.guards = [])
    (horder : order.Perm t.pool.table) :
    ∃ (s' : Pool n) (d : Disk), flushEntries order t.pool = .ok () s' ∧
      Disk.openExisting (some s'.disk.file) = .ok d ∧
      ∀ k, 0 < k → ∃ r : Pool k, Pool.ofDisk k d = .ok r ∧
        (∀ (id : PageId) (p : Page), images h id = some p →
          (∀ access, ∃ (g : Guard k) (r' : Pool k), fetch id access r = .ok g r' ∧
            (r'.view g).Agrees p) ∧
          (Reserves r id ↔ p.kind ≠ .free)) ∧
        ∀ (h' : List (Entry k)) (u : Session k), Run ⟨r, []⟩ h' u →
          (∀ x ∈ h', x.event.Careful x.before) →
          ∀ (id : PageId) (p : Page) (access : Access),
            h'.foldl Entry.images (survivors (images h)) id = some p →
            (∀ (g : Guard k) (r' : Pool k), fetch id access u.pool = .ok g r' →
              (r'.view g).Agrees p) ∧
            ∀ (e : Error) (r' : Pool k), fetch id access u.pool = .error (.refused e) r' →
              e = .noFreeFrames := by
  obtain ⟨_, s', hflush, hsaved⟩ := hrun.flushed hd hs hcareful hguards horder
  refine ⟨s', s'.disk.reopened, hflush, Disk.openExisting_file hsaved.marked.exact, fun k hk => ?_⟩
  obtain ⟨r, hr⟩ : ∃ r : Pool k, Pool.ofDisk k s'.disk.reopened = .ok r :=
    ⟨_, by rw [ofDisk, require, if_pos hk]; rfl⟩
  refine ⟨r, hr, fun id p hp => ⟨hsaved.fetch_answers hr hk hp, hsaved.reserves_iff hr hk hp⟩, ?_⟩
  intro h' u hrun' hcareful' id p access hp
  have ha := hrun'.accounted hr
  have hends := fetch_shows ha
    (hrun'.represents (ofDisk_accounted hr) (hsaved.faithful hr) hcareful') hp access
  exact ⟨fun g r' hx => hends.of_ok hx, fun e r' hx => hends.of_error hx e rfl⟩

theorem exists_run_one (p : Page) :
    ∃ (s : Pool 1) (t : Session 1) (h : List (Entry 1)), Pool.ofDisk 1 ⟨.empty, 0, [], []⟩ = .ok s ∧
      Run ⟨s, []⟩ h t ∧ (∀ x ∈ h, x.event.Careful x.before) ∧ t.guards = [] ∧
      images h ⟨0⟩ = some p := by
  let a : Guard 1 := ⟨0, ⟨0⟩, .write⟩
  let file : File := File.empty.writePage 0 Page.zero
  let s : Pool 1 := ⟨#v[⟨Page.zero, none, 0, false⟩], [], [0], ⟨[]⟩, ⟨.empty, 0, [], []⟩⟩
  let s₁ : Pool 1 := ⟨#v[⟨Page.zero, some ⟨0⟩, 1, false⟩], [(⟨0⟩, 0)], [], ⟨[]⟩, ⟨file, 1, [], []⟩⟩
  let s₂ : Pool 1 := ⟨#v[⟨p, some ⟨0⟩, 1, false⟩], [(⟨0⟩, 0)], [], ⟨[]⟩, ⟨file, 1, [], []⟩⟩
  let s₃ : Pool 1 := ⟨#v[⟨p, some ⟨0⟩, 0, true⟩], [(⟨0⟩, 0)], [], ⟨[0]⟩, ⟨file, 1, [], []⟩⟩
  have h₁ : Step ⟨s, []⟩ .newPage (.ok (some a)) ⟨s₁, [a]⟩ := .answered trivial rfl
  have h₂ : Step ⟨s₁, [a]⟩ (.update a p) (.ok none) ⟨s₂, [a]⟩ :=
    .answered ⟨List.mem_cons_self, rfl⟩ rfl
  have h₃ : Step ⟨s₂, [a]⟩ (.release a) (.ok none) ⟨s₃, []⟩ :=
    .answered List.mem_cons_self (by with_unfolding_all rfl)
  exact ⟨s, ⟨s₃, []⟩, _, rfl, .step (.step (.step .start h₁) h₂) h₃, by simp [Event.Careful], rfl,
    rfl⟩

/-- A data page is read back by a pool of two frames, and it is reserved there. -/
theorem durable_data_page :
    ∃ (t : Session 1) (s' : Pool 1) (d : Disk) (r r' : Pool 2) (g : Guard 2),
      flushEntries t.pool.table t.pool = .ok () s' ∧
      Disk.openExisting (some s'.disk.file) = .ok d ∧ Pool.ofDisk 2 d = .ok r ∧
      fetch ⟨0⟩ .read r = .ok g r' ∧
      (r'.view g).Agrees (Page.zero.setHeader (PageHeader.fresh .data)) ∧ Reserves r ⟨0⟩ := by
  let p : Page := Page.zero.setHeader (PageHeader.fresh .data)
  have hkind : p.kind ≠ .free := by
    rw [Page.kind, Page.byte_setHeader_zero]
    decide
  obtain ⟨s, t, h, hs, hrun, hcareful, hguards, hp⟩ := exists_run_one p
  obtain ⟨s', d, hflush, hopen, hall⟩ := Run.durable rfl hs hrun hcareful hguards (.refl _)
  obtain ⟨r, hr, hback, -⟩ := hall 2 (by decide)
  obtain ⟨hread, hres⟩ := hback ⟨0⟩ p hp
  obtain ⟨g, r', hfetch, hagrees⟩ := hread .read
  exact ⟨t, s', d, r, r', g, hflush, hopen, hr, hfetch, hagrees, hres.mpr hkind⟩

/-- A page in use whose first byte is the tag of released pages is handed out again after the file
has been opened again. -/
theorem tagged_page_handed_out :
    ∃ (s : Pool 1) (t : Session 1) (h : List (Entry 1)) (s' : Pool 1) (d : Disk) (r : Pool 1),
      Pool.ofDisk 1 ⟨.empty, 0, [], []⟩ = .ok s ∧ Run ⟨s, []⟩ h t ∧
      (∀ x ∈ h, x.event.Careful x.before) ∧ t.guards = [] ∧
      images h ⟨0⟩ = some (Page.zero.setByte 0 4) ∧
      flushEntries t.pool.table t.pool = .ok () s' ∧
      Disk.openExisting (some s'.disk.file) = .ok d ∧ Pool.ofDisk 1 d = .ok r ∧
      ¬ Reserves r ⟨0⟩ := by
  let p : Page := Page.zero.setByte 0 4
  have hkind : p.kind = .free := by
    rw [Page.kind, Buffer.byte_setByte]
    rfl
  obtain ⟨s, t, h, hs, hrun, hcareful, hguards, hp⟩ := exists_run_one p
  obtain ⟨_, s', hflush, hsaved⟩ := hrun.flushed rfl hs hcareful hguards (.refl _)
  have hopen := Disk.openExisting_file hsaved.marked.exact
  refine ⟨s, t, h, s', _, _, hs, hrun, hcareful, hguards, hp, hflush, hopen, rfl, fun hres => ?_⟩
  exact (hsaved.reserves_iff rfl (by decide) hp).mp hres hkind

end PagedIndex.Pool
