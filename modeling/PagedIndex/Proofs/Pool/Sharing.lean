import PagedIndex.Proofs.Pool.Backing

/-! # One frame for every page

A released page can still be fetched, and then its identifier can be handed out again while the
fetched copy is in memory: the page is in two frames, the table points at the newer one, and the
older one may still be written to the file.  `Run.inverse_all_iff` says that this is the only way in
which the table and the frames of a pool over a new file ever differ, whatever the device does, and
that runs which fetch no released page are safe. -/

namespace PagedIndex.Pool

open PagedIndex.Action

variable {n : Nat}

/-- All along a run the table and the frames are inverse to each other exactly when no new page
has an identifier that another frame holds, and so they are when no released page is fetched.  Then
every page is in one frame, and all its guards see the same bytes. -/
theorem Run.inverse_all_iff {disk : Disk} {device : Device} {s : Pool n} {h : List (Entry n)}
    {t : Session n} (hd : Disk.create none = .ok disk)
    (hs : Pool.ofDisk n { disk with device } = .ok s) (hrun : Run ⟨s, []⟩ h t) :
    (((∀ x ∈ h, Inverse x.before.pool) ∧ Inverse t.pool) ↔ ∀ x ∈ h, x.Unshared) ∧
    ((∀ x ∈ h, x.event.Careful x.before) → ∀ x ∈ h, x.Unshared) ∧
    (Inverse t.pool →
      (∀ f g id, (t.pool.frame f).resident = some id → (t.pool.frame g).resident = some id →
        f = g) ∧
      ∀ g ∈ t.guards, ∀ g' ∈ t.guards, g.page = g'.page → t.pool.view g = t.pool.view g') := by
  obtain ⟨hall, hacc⟩ := hrun.accounted_all (ofDisk_accounted hs)
  have hfound := hrun.found_iff (ofDisk_accounted hs) (ofDisk_found hs)
  refine ⟨?_, fun hcareful => ?_, fun hi => ?_⟩
  · rw [hacc.inverse_iff_found, ← hfound]
    exact and_congr_left fun _ => forall₂_congr fun x hx => (hall x hx).inverse_iff_found
  · have hopen : Disk.openOrCreate none = .ok disk := hd
    obtain ⟨hbefore, hafter⟩ := hrun.backed ((Disk.openOrCreate_sound hopen).withDevice device) hs
      (fun x hx => (hcareful x hx).spares) fun hno : False => hno.elim
    exact hfound.mp ⟨fun x hx => (hbefore x hx).found, hafter.found⟩
  · have hone : ∀ f g id, (t.pool.frame f).resident = some id →
        (t.pool.frame g).resident = some id → f = g :=
      fun f g id => (hacc.inverse_iff_found.mp hi).unique
    refine ⟨hone, fun g hg g' hg' hpage => ?_⟩
    have hframe := hone _ _ g.page (hacc.held g hg) (hpage ▸ hacc.held g' hg')
    exact congrArg (fun f => (t.pool.frame f).page) hframe

/-- A new page is where the table says. -/
theorem inverse_newPage_one :
    ∃ (s t : Pool 1) (g : Guard 1), Pool.ofDisk 1 ⟨.empty, 0, [], []⟩ = .ok s ∧
      Run ⟨s, []⟩ [⟨⟨s, []⟩, .newPage, .ok (some g)⟩] ⟨t, [g]⟩ ∧ Inverse t ∧
      t.frameOf? g.page = some g.frame := by
  let s : Pool 1 := ⟨#v[Frame.empty], [], [0], ⟨[]⟩, ⟨.empty, 0, [], []⟩⟩
  have hs : Pool.ofDisk 1 ⟨.empty, 0, [], []⟩ = .ok s := rfl
  have hrun := Run.step (.start (t := ⟨s, []⟩)) (.answered (e := .newPage) trivial rfl)
  obtain ⟨hiff, hcareful, -⟩ := Run.inverse_all_iff rfl hs hrun
  exact ⟨s, _, _, hs, hrun, (hiff.mpr (hcareful (by simp [Event.Careful]))).2, rfl⟩

/-- A page in two frames: its copy in the file in one, and the new page in the other. -/
def twice (s : Pool n) (f g : Fin n) (rest : List (Fin n)) (id : PageId) (stack : List PageId)
    (q : Page) : Pool n :=
  Pool.occupied { Pool.occupied { s with free := g :: rest } f id q with
    free := rest, disk := s.disk.reused id stack } g id Page.zero

section Twice

variable {s : Pool n} {f g : Fin n} {rest : List (Fin n)} {id : PageId} {stack : List PageId}
variable {q : Page}

theorem free_apart (ha : Accounted s [] []) (hframes : s.free = f :: g :: rest) : g ≠ f := by
  rintro rfl
  have honce := ha.once g
  rw [hframes, List.count_cons_self, List.count_cons_self] at honce
  omega

/-- A released page that is fetched comes into one frame, and a page made next into another. -/
theorem run_twice (ha : Accounted s [] []) (hr : s.disk.Reliable)
    (hframes : s.free = f :: g :: rest) (hstack : s.disk.free = id :: stack)
    (hread : s.disk.read id = .ok q) (hmiss : s.frameOf? id = none) :
    ∃ t, Step ⟨s, []⟩ (.fetch id .read) (.ok (some ⟨f, id, .read⟩)) t ∧
      Step t .newPage (.ok (some ⟨g, id, .write⟩))
        ⟨s.twice f g rest id stack q, [⟨g, id, .write⟩, ⟨f, id, .read⟩]⟩ := by
  let s₁ : Pool n := Pool.occupied { s with free := g :: rest } f id q
  have hpins : ∀ f ∈ s.free, (s.frame f).pins = 0 := fun f hf => ha.unpinned (.inl hf)
  have hid : id.isValid := (Disk.holds_of_read hread).1
  have hfetch : (fetch id .read).Ends s (fun a s' => a = ⟨f, id, .read⟩ ∧ s' = s₁)
      fun _ _ => False := by
    refine fetch_ends (pinPage_miss hid hmiss (acquire_free hframes ?_))
    refine ⟨hpins f (by simp [hframes]), fun p hp => ?_, fun e he => ?_⟩
    · obtain rfl : q = p := Except.ok.inj (hread.symm.trans hp)
      exact ⟨rfl, rfl⟩
    · exact absurd (hread.symm.trans he) nofun
  have hnew : newPage.Ends s₁
      (fun a s' => a = ⟨g, id, .write⟩ ∧ s' = s.twice f g rest id stack q) fun _ _ => False := by
    have hzero : (s₁.frame g).pins = 0 :=
      (congrArg Frame.pins (frame_setAt_ne _ f _ (free_apart ha hframes))).trans
        (hpins g (by simp [hframes]))
    have hfree : s₁.free = g :: rest := rfl
    refine newPage_ends (acquire_free hfree ⟨hzero, ?_, ?_, ?_, ?_⟩)
    · intro id' stack' hs
      obtain ⟨rfl, rfl⟩ := List.cons.inj (hstack.symm.trans hs)
      exact ⟨rfl, rfl⟩
    · intro hs
      exact absurd (hstack.symm.trans hs) nofun
    · intro hs
      exact absurd (hstack.symm.trans hs) nofun
    · exact fun b d hb => absurd hb (hr.not_fails b)
  obtain ⟨_, _, hx₁, rfl, rfl⟩ := hfetch.answers
  obtain ⟨_, _, hx₂, rfl, rfl⟩ := hnew.answers
  exact ⟨⟨s₁, [⟨f, id, .read⟩]⟩,
    .answered trivial (by simp [Event.task, Functor.map, EStateM.map, hx₁]),
    .answered trivial (by simp [Event.task, Functor.map, EStateM.map, hx₂])⟩

theorem refetched (ha : Accounted s [] []) (hr : s.disk.Reliable)
    (hframes : s.free = f :: g :: rest) (hstack : s.disk.free = id :: stack)
    (hread : s.disk.read id = .ok q) (hmiss : s.frameOf? id = none) :
    ∃ t u : Session n, Step ⟨s, []⟩ (.fetch id .read) (.ok (some ⟨f, id, .read⟩)) t ∧
      Step t .newPage (.ok (some ⟨g, id, .write⟩)) u ∧
      u.guards = [⟨g, id, .write⟩, ⟨f, id, .read⟩] ∧
      u.pool.frame f = ⟨q, some id, 1, (s.frame f).dirty⟩ ∧
      (u.pool.frame g).page = Page.zero ∧ u.pool.frameOf? id = some g := by
  obtain ⟨t, hfetch, hnew⟩ := run_twice ha hr hframes hstack hread hmiss
  refine ⟨t, _, hfetch, hnew, rfl, ?_, congrArg Frame.page (frame_setAt_self _ g _),
    frameOf?_recorded_self _⟩
  exact (frame_setAt_ne _ g _ (free_apart ha hframes).symm).trans (frame_setAt_self _ f _)

end Twice

/-- A page that is released, fetched and handed out again is seen in two states at once. -/
theorem shared_page :
    ∃ (s : Pool 2) (t : Session 2) (h : List (Entry 2)),
      Pool.ofDisk 2 ⟨.empty, 0, [], []⟩ = .ok s ∧ Run ⟨s, []⟩ h t ∧ ¬ Inverse t.pool ∧
        ∃ g ∈ t.guards, ∃ g' ∈ t.guards, g.page = g'.page ∧ t.pool.view g ≠ t.pool.view g' := by
  let z : Frame := Frame.empty
  let a : Guard 2 := ⟨0, ⟨0⟩, .write⟩
  let file : File := File.empty.writePage 0 Page.zero
  let d : Disk := Disk.put ⟨file, 1, [⟨0⟩], []⟩ ⟨0⟩ Page.tombstone
  let s : Pool 2 := ⟨#v[z, z], [], [0, 1], ⟨[]⟩, ⟨.empty, 0, [], []⟩⟩
  let s₁ : Pool 2 := ⟨#v[⟨Page.zero, some ⟨0⟩, 1, false⟩, z], [(⟨0⟩, 0)], [1], ⟨[]⟩,
    ⟨file, 1, [], []⟩⟩
  let s₂ : Pool 2 := ⟨#v[⟨Page.zero, some ⟨0⟩, 0, true⟩, z], [(⟨0⟩, 0)], [1], ⟨[0]⟩,
    ⟨file, 1, [], []⟩⟩
  let s₃ : Pool 2 := ⟨#v[z, z], [], [0, 1], ⟨[]⟩, d⟩
  have hs : Pool.ofDisk 2 ⟨.empty, 0, [], []⟩ = .ok s := rfl
  have h₁ : Step ⟨s, []⟩ .newPage (.ok (some a)) ⟨s₁, [a]⟩ := .answered trivial rfl
  have h₂ : Step ⟨s₁, [a]⟩ (.release a) (.ok none) ⟨s₂, []⟩ :=
    .answered List.mem_cons_self (by with_unfolding_all rfl)
  have h₃ : Step ⟨s₂, []⟩ (.deletePage ⟨0⟩) (.ok none) ⟨s₃, []⟩ :=
    .answered trivial (by with_unfolding_all rfl)
  have hrun := Run.step (.step (.step .start h₁) h₂) h₃
  have hholds : Disk.Holds ⟨file, 1, [⟨0⟩], []⟩ ⟨0⟩ := ⟨rfl, by decide⟩
  have hsound : Disk.Sound ⟨file, 1, [⟨0⟩], []⟩ :=
    ⟨List.nodup_singleton _, List.forall_mem_singleton.mpr hholds, Nat.le_max_right _ _⟩
  have hread : d.read ⟨0⟩ = .ok Page.tombstone.stamped := Disk.read_put hsound hholds
  obtain ⟨t, u, h₄, h₅, hguards, hold, hnew, htable⟩ :=
    refetched (hrun.accounted hs) rfl (f := 0) (g := 1) rfl rfl hread rfl
  refine ⟨s, u, _, hs, .step (.step hrun h₄) h₅, fun hi => ?_, ?_⟩
  · have hfirst := (hi ⟨0⟩ 0).mpr (congrArg Frame.resident hold)
    exact absurd (htable.symm.trans hfirst) (by decide)
  · refine ⟨⟨0, ⟨0⟩, .read⟩, by simp [hguards], ⟨1, ⟨0⟩, .write⟩, by simp [hguards], rfl, ?_⟩
    intro hview
    have hpages : (u.pool.frame 0).page = (u.pool.frame 1).page := hview
    rw [hold, hnew] at hpages
    have htag := congrArg (Buffer.byte · 0) hpages
    simp only at htag
    rw [(Page.agrees_stamped Page.tombstone).tag, Page.tombstone, Page.byte_setHeader_zero] at htag
    simp [PageHeader.fresh, PageKind.tag] at htag

end PagedIndex.Pool
