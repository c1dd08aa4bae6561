import PagedIndex.Proofs.Disk.Reopen
import PagedIndex.Proofs.Pool.Accounting

/-! # What a pool does to its store

Every event of a run is told by what it leaves in the store (`Step.effect`): first some of the
pages in memory may go to the file (`Wrote`), and then at most one page is handed out or released,
unless the device gives up at one of these.  So a property of the store is followed through a run
by checking these changes, whatever happens to frames, table and guards; `Run.sound` does so for
the length of the file, and `Run.reliable` for the device. -/

namespace PagedIndex.Pool

open PagedIndex.Action

variable {n : Nat}

/-- The store after some of the pages in memory have gone to the file. -/
inductive Wrote (s : Pool n) : Disk → Prop
  | start : Wrote s s.disk
  | put {d : Disk} {f : Fin n} {id : PageId} (p : Page) :
      Wrote s d → (s.frame f).resident = some id → Wrote s (d.put id p)
  | torn {d : Disk} {f : Fin n} {id : PageId} {b : Breakdown} (p : Page) :
      Wrote s d → (s.frame f).resident = some id → d.Fails b → Wrote s (d.torn id p b)

/-- The store after an event that came back. -/
inductive Effect (s : Pool n) : Event n → Outcome n → Disk → Prop
  | wrote {e : Event n} {o : Outcome n} {d : Disk} : Wrote s d →
      (∀ g, e = .newPage → o ≠ .ok (some g)) → Effect s e o d
  | reused {g : Guard n} {rest : List PageId} {d : Disk} : Wrote s d →
      d.free = g.page :: rest → Effect s .newPage (.ok (some g)) (d.reused g.page rest)
  | grown {g : Guard n} {d : Disk} : Wrote s d → d.free = [] →
      (⟨d.pageCount⟩ : PageId).isValid → g.page = ⟨d.pageCount⟩ →
      Effect s .newPage (.ok (some g)) d.grown
  | released {id : PageId} : s.disk.Live id →
      Effect s (.deletePage id) (.ok none) (s.disk.released id)
  | aborted {b : Breakdown} {d d' : Disk} : Wrote s d → d.Fails b → d.Aborted b d' →
      Effect s .newPage (.error (.file b.cause)) d'
  | undeleted {id : PageId} {b : Breakdown} : s.disk.Live id → s.disk.Fails b →
      Effect s (.deletePage id) (.error (.file b.cause))
        (s.disk.torn id Page.tombstone.stamped b)
  | tampered (file : File) :
      Effect s (.tamper file) (.ok none) { s.disk with file }

/-! ### Calls -/

section Calls

variable {s : Pool n} {guards : List (Guard n)} {f : Fin n} {id : PageId}

theorem writeBack_wrote (hres : (s.frame f).resident = some id) :
    (writeBack f id).Ends s (fun _ s' => Wrote s s'.disk) fun _ s' => Wrote s s'.disk :=
  writeBack_ends (fun _ => .start) (fun _ _ => .put _ .start hres) (fun _ _ _ => .start)
    fun _ _ _ hb => .torn _ .start hres hb

theorem acquire_wrote :
    acquire.Ends s (fun _ s' => Wrote s s'.disk) fun _ s' => Wrote s s'.disk := by
  refine acquire_ends (fun _ _ _ => .start) ?_ fun _ _ => .start
  intro f rest _ _
  refine vacate_ends (fun _ => .start) fun old hold => ?_
  exact writeBack_ends (fun _ => .start) (fun _ _ => .put _ .start hold) (fun _ _ _ => .start)
    fun _ _ _ hb => .torn _ .start hold hb

theorem fetch_wrote (ha : Accounted s guards []) (access : Access) :
    (fetch id access).Ends s (fun _ s' => Wrote s s'.disk)
      (Kept (fun s' => Wrote s s'.disk) True) := by
  refine fetch_ends (pinPage_ends (fun _ => .start) (fun _ _ _ _ => .start) ?_ ?_)
  · exact fun _ _ _ _ _ => trivial
  · intro _ _
    refine ((acquire_accounted (L := True) ha).and acquire_wrote).mono ?_ ?_
    · rintro f s' ⟨⟨ha', -⟩, hs'⟩
      exact ⟨ha'.unpinned (.inr (.inr List.mem_cons_self)), fun _ _ => hs', fun _ _ => hs'⟩
    · exact fun _ _ hs' => .intro hs'.2

theorem newPage_effect (ha : Accounted s guards []) :
    newPage.Ends s (fun g s' => Effect s .newPage (.ok (some g)) s'.disk)
      fun c s' => ∀ e, c = .refused e → Effect s .newPage (.error e) s'.disk := by
  refine newPage_ends (((acquire_accounted (L := True) ha).and acquire_wrote).mono ?_ ?_)
  · rintro f s' ⟨⟨ha', -⟩, hs'⟩
    refine ⟨ha'.unpinned (.inr (.inr List.mem_cons_self)), fun id rest hfree => .reused hs' hfree,
      fun hfree hvalid => .grown hs' hfree hvalid rfl, fun _ _ _ _ => nofun, ?_⟩
    rintro b d hb hd _ ⟨⟩
    exact .aborted hs' hb hd
  · exact fun _ _ hs' _ _ => .wrote hs'.2 nofun

theorem deletePage_effect :
    (deletePage id).Ends s (fun _ s' => Effect s (.deletePage id) (.ok none) s'.disk)
      fun c s' => ∀ e, c = .refused e → Effect s (.deletePage id) (.error e) s'.disk := by
  have hdisk : ∀ {s' : Pool n}, s'.disk = s.disk →
      (onDisk (n := n) ((Disk.deallocate id).mapCause Stop.refused)).Ends s'
        (fun _ s' => Effect s (.deletePage id) (.ok none) s'.disk)
        fun c s' => ∀ e, c = .refused e → Effect s (.deletePage id) (.error e) s'.disk := by
    intro s' hs'
    refine deallocate_ends (fun _ _ _ _ _ => ?_) (fun _ _ => ?_) (fun hid hfree => ?_) ?_
    · exact .wrote (hs' ▸ .start) nofun
    · exact .wrote (hs' ▸ .start) nofun
    · rw [hs'] at hid hfree ⊢
      exact .released ⟨hid, hfree⟩
    · rintro b hid hb _ ⟨⟩
      rw [hs'] at hid hb ⊢
      exact .undeleted hid hb
  exact deletePage_ends (fun _ _ _ _ _ => .wrote .start nofun) (fun _ _ _ => hdisk rfl)
    fun _ => hdisk rfl

theorem flushPage_wrote (ha : Accounted s guards []) :
    (flushPage id).Ends s (fun _ s' => Wrote s s'.disk)
      (Kept (fun s' => Wrote s s'.disk) True) := by
  refine flushPage_ends (fun _ => .start) fun f ht => ?_
  have hwrote := writeBack_wrote (ha.tabled _ (mem_of_frameOf? ht))
  exact hwrote.mono (fun _ _ hs' => hs') fun _ _ hs' => .intro hs'

theorem flushEntries_wrote {entries : List (PageId × Fin n)}
    (he : ∀ e ∈ entries, (s.frame e.2).resident = some e.1) :
    (flushEntries entries).Ends s (fun _ s' => Wrote s s'.disk)
      (Kept (fun s' => Wrote s s'.disk) True) := by
  let I : Pool n → Prop := fun s' => Wrote s s'.disk ∧ ∀ g, (s'.frame g).resident =
    (s.frame g).resident
  have hkeep : ∀ e ∈ entries, ∀ s', I s' → (writeBack e.2 e.1).Ends s' (fun _ s'' => I s'')
      (Kept (fun s' => Wrote s s'.disk) True) := by
    rintro e hmem s' ⟨hs', hsame⟩
    refine writeBack_ends (fun _ => ⟨hs', hsame⟩) (fun _ _ => ⟨.put _ hs' (he e hmem), ?_⟩)
      (fun _ _ _ => hs') fun _ _ _ hb => .torn _ hs' (he e hmem) hb
    intro g
    exact (field_setAt s' e.2 Frame.resident (by rfl) g).trans (hsame g)
  exact (flushEntries_ends (I := I) ⟨.start, fun _ => rfl⟩ hkeep).mono (fun _ _ h => h.1)
    fun _ _ h => h

end Calls

/-! ### Events -/

theorem Event.effect {t : Session n} {e : Event n} (ha : Accounted t.pool t.guards [])
    (he : e.Offered t) :
    e.task.Ends t.pool (fun o s => Effect t.pool e (.ok o) s.disk)
      fun c s => ∀ c', c = .refused c' → Effect t.pool e (.error c') s.disk := by
  have hwrote : ∀ {o : Option (Guard n)} {s : Pool n}, e ≠ .newPage → Wrote t.pool s.disk →
      Effect t.pool e (.ok o) s.disk := fun hne hs => .wrote hs fun _ he => absurd he hne
  have hkept : ∀ (c : Stop) (s : Pool n), Kept (fun s => Wrote t.pool s.disk) True c s →
      ∀ c', c = .refused c' → Effect t.pool e (.error c') s.disk := by
    rintro _ s hs c' rfl
    exact .wrote hs nofun
  cases e with
  | newPage => exact ends_map.mpr (newPage_effect ha)
  | fetch id access =>
      exact ends_map.mpr ((fetch_wrote ha access).mono (fun _ _ => hwrote nofun) hkept)
  | deletePage id => exact ends_map.mpr deletePage_effect
  | flushPage id =>
      exact ends_map.mpr ((flushPage_wrote ha).mono (fun _ _ => hwrote nofun) hkept)
  | flushAll order =>
      refine ends_map.mpr ((flushEntries_wrote fun e hmem => ?_).mono (fun _ _ => hwrote nofun)
        hkept)
      exact ha.tabled e ((List.Perm.mem_iff he).mp hmem)
  | release g =>
      refine ends_map.mpr (release_ends (ha.pins_ne_zero he) ?_ ?_) <;>
        exact fun _ => hwrote nofun .start
  | update g p => exact ends_map.mpr (update_ends (hwrote nofun .start))
  | tamper file => exact .tampered file

theorem Step.effect {t u : Session n} {e : Event n} {o : Outcome n}
    (ha : Accounted t.pool t.guards []) (hs : Step t e o u) : Effect t.pool e o u.pool.disk := by
  cases hs with
  | answered he hx => exact (e.effect ha he).of_ok hx
  | refused he hx => exact (e.effect ha he).of_error hx _ rfl

/-! ### What the changes keep -/

section Kept

variable {s : Pool n} {d : Disk} {e : Event n} {o : Outcome n} {id : PageId}

theorem Wrote.ledger (h : Wrote s d) : d.free = s.disk.free ∧ d.pageCount = s.disk.pageCount := by
  induction h with
  | start => exact ⟨rfl, rfl⟩
  | put p _ _ ih => exact ih
  | torn p _ _ _ ih => exact ih

theorem Wrote.reliable (hr : s.disk.Reliable) (h : Wrote s d) : d.Reliable := by
  induction h with
  | start => exact hr
  | put p _ _ ih => exact ih.tail rfl
  | torn p _ _ _ ih => exact ih.tail rfl

theorem Wrote.live_iff (h : Wrote s d) : d.Live id ↔ s.disk.Live id := by
  unfold Disk.Live Disk.Holds
  rw [h.ledger.1, h.ledger.2]

theorem Wrote.sound (hd : s.disk.Sound) (h : Wrote s d) : d.Sound := by
  induction h with
  | start => exact hd
  | put p _ _ ih => exact ih.put
  | torn p _ _ _ ih => exact ih.torn

/-- Only somebody else can shorten the file. -/
theorem Effect.sound (hd : s.disk.Sound) (hfile : ∀ file, e ≠ .tamper file) (h : Effect s e o d) :
    d.Sound := by
  cases h with
  | wrote h _ => exact h.sound hd
  | reused h hfree => exact (h.sound hd).reused hfree
  | grown h hfree hvalid _ => exact (h.sound hd).grown hfree hvalid
  | released hid => exact hd.released hid
  | aborted h _ hd' => exact (h.sound hd).aborted hd'
  | undeleted _ _ => exact hd.torn
  | tampered file => exact absurd rfl (hfile file)

theorem Effect.reliable (hr : s.disk.Reliable) (h : Effect s e o d) : d.Reliable := by
  cases h with
  | wrote h _ => exact h.reliable hr
  | reused h _ | grown h _ _ _ => exact (h.reliable hr).tail rfl
  | released _ => exact hr.tail rfl
  | aborted h hb _ => exact absurd hb ((h.reliable hr).not_fails _)
  | undeleted _ hb => exact absurd hb (hr.not_fails _)
  | tampered file => exact hr

/-- Released pages stay marked as long as none of them is in memory. -/
theorem Wrote.marked (hr : s.disk.Reliable) (hm : s.disk.Marked)
    (hlive : ∀ f id, (s.frame f).resident = some id → s.disk.Live id) (h : Wrote s d) :
    d.Marked := by
  induction h with
  | start => exact hm
  | @put d f id p h hres ih => exact ih.put (h.live_iff.mpr (hlive f id hres)) p
  | torn p h _ hb _ => exact absurd hb ((h.reliable hr).not_fails _)

theorem Effect.marked (hr : s.disk.Reliable) (hm : s.disk.Marked)
    (hlive : ∀ f id, (s.frame f).resident = some id → s.disk.Live id)
    (hfile : ∀ file, e ≠ .tamper file) (h : Effect s e o d) : d.Marked := by
  cases h with
  | wrote h _ => exact h.marked hr hm hlive
  | reused h hfree => exact (h.marked hr hm hlive).reused hfree
  | grown h hfree hvalid _ => exact (h.marked hr hm hlive).grown hfree hvalid
  | released hid => exact hm.released hid
  | aborted h hb _ => exact absurd hb ((h.reliable hr).not_fails _)
  | undeleted _ hb => exact absurd hb (hr.not_fails _)
  | tampered file => exact absurd rfl (hfile file)

/-- A page in use is not handed out, and it stays in use unless it is deleted. -/
theorem Effect.live_kept (hid : s.disk.Live id) (hkeep : e = .deletePage id → o ≠ .ok none)
    (h : Effect s e o d) :
    d.Live id ∧ ∀ g, e = .newPage → o = .ok (some g) → g.page ≠ id := by
  cases h with
  | wrote h hno => exact ⟨h.live_iff.mpr hid, fun g he ho => absurd ho (hno g he)⟩
  | @reused g rest d h hfree =>
      have hlive := h.live_iff.mpr hid
      refine ⟨hlive.popped hfree, ?_⟩
      rintro g' - ho rfl
      cases ho
      exact Disk.not_live_top hfree hlive
  | @grown g d h hfree hvalid hpage =>
      have hlive := h.live_iff.mpr hid
      refine ⟨(Disk.live_grown hfree hvalid).mpr (.inr hlive), ?_⟩
      rintro g' - ho rfl
      cases ho
      exact d.not_live_next (hpage ▸ hlive)
  | @released other ho =>
      refine ⟨Disk.live_released.mpr ⟨?_, hid⟩, nofun⟩
      rintro rfl
      exact hkeep rfl rfl
  | @aborted b d _ h _ hd =>
      have hlive := h.live_iff.mpr hid
      refine ⟨?_, fun _ _ ho => nomatch ho⟩
      cases hd with
      | reuse hfree => exact hlive.popped hfree
      | grow _ => exact hlive
  | undeleted _ _ => exact ⟨hid, nofun⟩
  | tampered file => exact ⟨hid, nofun⟩

end Kept

theorem Run.sound {disk : Disk} {s : Pool n} {h : List (Entry n)} {t : Session n}
    (hd : disk.Sound) (hs : Pool.ofDisk n disk = .ok s) (hrun : Run ⟨s, []⟩ h t)
    (hfile : ∀ x ∈ h, ∀ file, x.event ≠ .tamper file) : t.pool.disk.Sound := by
  induction hrun with
  | start =>
      rw [(ofDisk_parts hs).2.2.2.2]
      exact hd
  | step hrun hstep ih =>
      rw [List.forall_mem_append, List.forall_mem_singleton] at hfile
      exact (hstep.effect (hrun.accounted hs)).sound (ih hfile.1) hfile.2

theorem Run.reliable {t u : Session n} {h : List (Entry n)} (ha : Accounted t.pool t.guards [])
    (hr : t.pool.disk.Reliable) (hrun : Run t h u) : u.pool.disk.Reliable := by
  induction hrun with
  | start => exact hr
  | step hrun hstep ih => exact (hstep.effect (hrun.accounted_all ha).2).reliable ih

end PagedIndex.Pool
