import PagedIndex.Proofs.Pool.Effects
import PagedIndex.Proofs.Pool.Residence
import PagedIndex.Proofs.Pool.Recency

/-! # Victims

A call that needs a frame takes a free one, and evicts a page only when there is none.  Then it
takes the frame whose pins fell to zero longest ago (`Run.takes_earliest`).  The eviction order
tells the frames without pins by their latest fall (`Run.ranked`): a release adds its frame behind,
everything else only takes frames out, and over a device that does not give up a page that has its
place in the file (`Filed`) is never put back into the order by an eviction that fails. -/

namespace PagedIndex.Pool

open PagedIndex.Action

variable {n : Nat}

/-- Pages in memory have a place in the file, and released pages too. -/
structure Filed (s : Pool n) : Prop where
  resident : ∀ f id, (s.frame f).resident = some id → s.disk.Holds id
  listed : ∀ id ∈ s.disk.free, s.disk.Holds id

/-- The frame `f`, whose turn it was, has been taken: the free frames come first, then the eviction
order.  A free frame costs no page its place in memory. -/
structure Taken (s : Pool n) (f : Fin n) (s' : Pool n) : Prop where
  filed : s'.Filed
  turn : s.free ++ s.lru.order = f :: (s'.free ++ s'.lru.order)
  free : s'.free = s.free.tail
  others : ∀ g, g ≠ f → s'.frame g = s.frame g
  kept : s.free ≠ [] → ∀ id, s.frameOf? id ≠ none → s'.frameOf? id ≠ none

/-- No frame has come into the eviction order. -/
structure Aged (s s' : Pool n) : Prop where
  filed : s'.Filed
  order : s'.lru.order.Sublist s.lru.order

section Changes

variable {s s' u : Pool n} {f : Fin n} {id : PageId} {p : Page}

theorem Filed.of_same (h : s.Filed)
    (hres : ∀ g id, (u.frame g).resident = some id → (s.frame g).resident = some id)
    (hledger : u.disk.free = s.disk.free ∧ u.disk.pageCount = s.disk.pageCount) : u.Filed := by
  have hholds : ∀ id, u.disk.Holds id ↔ s.disk.Holds id := fun id => by
    rw [Disk.Holds, Disk.Holds, hledger.2]
  refine ⟨fun g id hg => (hholds id).mpr (h.resident g id (hres g id hg)), fun id hid => ?_⟩
  rw [hledger.1] at hid
  exact (hholds id).mpr (h.listed id hid)

theorem Filed.of_residents (h : s.Filed)
    (hres : ∀ g, (u.frame g).resident = (s.frame g).resident)
    (hledger : u.disk.free = s.disk.free ∧ u.disk.pageCount = s.disk.pageCount) : u.Filed :=
  h.of_same (fun g _ hg => (hres g).symm.trans hg) hledger

theorem Filed.of_vacated (h : s.Filed) (hself : (u.frame f).resident = none)
    (hothers : ∀ g, g ≠ f → u.frame g = s.frame g)
    (hledger : u.disk.free = s.disk.free ∧ u.disk.pageCount = s.disk.pageCount) : u.Filed := by
  refine h.of_same (fun g id hg => ?_) hledger
  by_cases hgf : g = f
  · rw [hgf, hself] at hg
    cases hg
  · rwa [hothers g hgf] at hg

theorem Aged.refl (h : s.Filed) : Aged s s := ⟨h, List.Sublist.refl _⟩

namespace Taken

theorem of_evicted (h : s.Filed) (hfree : s.free = []) (hu : u.free = [])
    (horder : s.lru.order = f :: u.lru.order) (hself : (u.frame f).resident = none)
    (hothers : ∀ g, g ≠ f → u.frame g = s.frame g)
    (hledger : u.disk.free = s.disk.free ∧ u.disk.pageCount = s.disk.pageCount) :
    Taken s f u where
  filed := h.of_vacated hself hothers hledger
  turn := by rw [hfree, hu, horder]; rfl
  free := by rw [hfree, hu]; rfl
  others := hothers
  kept hne := absurd hfree hne

theorem withDisk (h : Taken s f s') {disk : Disk}
    (hholds : ∀ id, s'.disk.Holds id → disk.Holds id)
    (hlisted : ∀ id ∈ disk.free, disk.Holds id) : Taken s f { s' with disk } :=
  ⟨⟨fun g id hg => hholds id (h.filed.resident g id hg), hlisted⟩, h.turn, h.free, h.others, h.kept⟩

theorem occupied (h : Taken s f s') (hid : s'.disk.Holds id) :
    Taken s f (s'.occupied f id p) where
  filed := by
    refine ⟨fun g id' hg => ?_, h.filed.listed⟩
    by_cases hgf : g = f
    · have hself : ((s'.occupied f id p).frame f).resident = some id :=
        congrArg Frame.resident (frame_setAt_self s' f _)
      rw [hgf, hself] at hg
      exact Option.some.inj hg ▸ hid
    · have hsame : (s'.occupied f id p).frame g = s'.frame g := frame_setAt_ne s' f _ hgf
      rw [hsame] at hg
      exact h.filed.resident g id' hg
  turn := h.turn
  free := h.free
  others g hgf := (frame_setAt_ne s' f _ hgf).trans (h.others g hgf)
  kept hne id' hid' := by
    by_cases heq : id' = id
    · rw [heq, Pool.occupied, frameOf?_recorded_self]
      exact Option.some_ne_none f
    · rw [Pool.occupied, frameOf?_recorded_ne _ heq]
      exact h.kept hne id' hid'

theorem aged (h : Taken s f s') : Aged s s' := by
  refine ⟨h.filed, ?_⟩
  have hturn := h.turn
  rw [h.free] at hturn
  cases hfree : s.free with
  | nil =>
      rw [hfree] at hturn
      rw [show s.lru.order = f :: s'.lru.order from hturn]
      exact List.sublist_cons_self f _
  | cons g rest =>
      rw [hfree] at hturn
      have horder := List.append_cancel_left (List.cons.inj hturn).2
      rw [horder]

end Taken

end Changes

/-! ### Calls that need a frame -/

section Calls

variable {s : Pool n} {guards : List (Guard n)} {f : Fin n} {id : PageId}

theorem writeBack_filed (hr : s.disk.Reliable) (h : s.Filed)
    (hres : (s.frame f).resident = some id) :
    (writeBack f id).Ends s
      (fun _ s' => s'.free = s.free ∧ s'.lru = s.lru ∧ (∀ g, g ≠ f → s'.frame g = s.frame g) ∧
        (∀ g, (s'.frame g).resident = (s.frame g).resident) ∧
        (s'.disk.free = s.disk.free ∧ s'.disk.pageCount = s.disk.pageCount) ∧ s'.disk.Reliable)
      fun _ _ => False :=
  writeBack_ends (fun _ => ⟨rfl, rfl, fun _ _ => rfl, fun _ => rfl, ⟨rfl, rfl⟩, hr⟩)
    (fun _ _ => ⟨rfl, rfl, fun _ hg => frame_setAt_ne _ _ _ hg,
      field_setAt s f Frame.resident (by rfl), ⟨rfl, rfl⟩, hr.tail rfl⟩)
    (fun _ hid _ => hid (h.resident f id hres)) fun b _ _ => hr.not_fails b

/-- A frame is taken in its turn, unless there is none. -/
theorem acquire_takes (hr : s.disk.Reliable) (h : s.Filed) :
    acquire.Ends s (fun f s' => Taken s f s' ∧ s'.disk.Reliable)
      fun c s' => c = .refused .noFreeFrames ∧ s' = s ∧ s.Exhausted := by
  refine acquire_ends ?_ ?_ fun hfree horder => ⟨rfl, rfl, hfree, horder⟩
  · intro f rest hs
    exact ⟨⟨h.of_same (fun _ _ hg => hg) ⟨rfl, rfl⟩, by rw [hs]; rfl, by rw [hs]; rfl,
      fun _ _ => rfl, fun _ _ hid => hid⟩, hr⟩
  · intro f rest hs ho
    let popped : Pool n := { s with lru := ⟨rest⟩ }
    have h' : popped.Filed := ⟨h.resident, h.listed⟩
    refine vacate_ends (fun _ => ?_) fun old hold => ?_
    · exact ⟨.of_evicted h hs hs ho (congrArg Frame.resident (frame_setAt_self _ f _))
        (fun g hg => frame_setAt_ne _ _ _ hg) ⟨rfl, rfl⟩, hr⟩
    · refine (writeBack_filed (s := popped) hr h' hold).mono ?_ fun _ _ => False.elim
      rintro _ s' ⟨hfree, hlru, hothers, -, hledger, hr'⟩
      refine ⟨.of_evicted h hs (hfree.trans hs) (ho.trans (congrArg (f :: ·.order) hlru).symm)
        ?_ ?_ hledger, hr'⟩
      · exact congrArg Frame.resident (frame_setAt_self _ f _)
      · exact fun g hg => (frame_setAt_ne _ _ _ hg).trans (hothers g hg)

theorem newPage_takes (ha : Accounted s guards []) (hr : s.disk.Reliable) (h : s.Filed) :
    newPage.Ends s (fun g s' => Taken s g.frame s') fun c s' => ∀ e, c = .refused e →
      e = .noFreeFrames ∧ s' = s ∧ s.Exhausted := by
  refine newPage_ends (((acquire_accounted (L := True) ha).and (acquire_takes hr h)).mono ?_ ?_)
  · rintro f s' ⟨⟨ha', -⟩, ht, hr'⟩
    refine ⟨ha'.unpinned (.inr (.inr List.mem_cons_self)), ?_, ?_, fun _ _ _ _ => nofun,
      fun b _ hb => absurd hb (hr'.not_fails b)⟩
    · intro id rest hfree
      have hlisted : ∀ other ∈ id :: rest, s'.disk.Holds other := fun other ho =>
        ht.filed.listed other (hfree ▸ ho)
      have hreused : Taken s f { s' with disk := s'.disk.reused id rest } :=
        ht.withDisk (fun _ hid => hid) fun other ho => hlisted other (List.mem_cons_of_mem _ ho)
      exact hreused.occupied (hlisted id List.mem_cons_self)
    · intro hfree hvalid
      have hholds : ∀ other, s'.disk.grown.Holds other ↔
          other = ⟨s'.disk.pageCount⟩ ∨ s'.disk.Holds other := fun _ => Disk.holds_grown hvalid
      have hgrown : Taken s f { s' with disk := s'.disk.grown } := by
        refine ht.withDisk (fun other ho => (hholds other).mpr (.inr ho)) fun other ho => ?_
        exact (hholds other).mpr (.inr (ht.filed.listed other ho))
      exact hgrown.occupied ((hholds _).mpr (.inl rfl))
  · rintro c s' ⟨-, rfl, rfl, hfull⟩ e he
    exact ⟨(Stop.refused.inj he).symm, rfl, hfull⟩

/-- A page that is not in memory takes a frame in its turn, and gives it back when it cannot be
read. -/
theorem fetch_takes (ha : Accounted s guards []) (hr : s.disk.Reliable) (h : s.Filed)
    {access : Access} (hid : id.isValid) (hmiss : s.frameOf? id = none) :
    (fetch id access).Ends s (fun g s' => Taken s g.frame s') fun c s' => ∀ e, c = .refused e →
      e = .noFreeFrames ∧ s' = s ∧ s.Exhausted ∨ ∃ f t, Taken s f t ∧ s' = t.returned f := by
  refine fetch_ends (pinPage_miss hid hmiss ?_)
  refine ((acquire_accounted (L := True) ha).and (acquire_takes hr h)).mono ?_ ?_
  · rintro f s' ⟨⟨ha', -⟩, ht, -⟩
    refine ⟨ha'.unpinned (.inr (.inr List.mem_cons_self)), fun p hp => ?_, fun e _ _ _ => ?_⟩
    · exact ht.occupied (Disk.holds_of_read hp)
    · exact .inr ⟨f, s', ht, rfl⟩
  · rintro c s' ⟨-, rfl, rfl, hfull⟩ e he
    exact .inl ⟨(Stop.refused.inj he).symm, rfl, hfull⟩

/-! ### Calls that need none -/

theorem fetch_aged (ha : Accounted s guards []) (hr : s.disk.Reliable) (h : s.Filed)
    (access : Access) :
    (fetch id access).Ends s (fun _ s' => Aged s s') (Kept (Aged s) True) := by
  refine fetch_ends (pinPage_ends (fun _ => .refl h) (fun f _ _ _ => ?_)
    (fun _ _ _ _ _ => trivial) fun hid hmiss => ?_)
  · refine ⟨h.of_residents (fun g => ?_) ⟨rfl, rfl⟩, List.erase_sublist⟩
    exact field_setAt s f Frame.resident (by rfl) g
  · refine ((acquire_accounted (L := True) ha).and (acquire_takes hr h)).mono ?_ ?_
    · rintro f s' ⟨⟨ha', -⟩, ht, -⟩
      exact ⟨ha'.unpinned (.inr (.inr List.mem_cons_self)),
        fun p hp => (ht.occupied (Disk.holds_of_read hp)).aged,
        fun _ _ => ⟨⟨ht.filed.resident, ht.filed.listed⟩, ht.aged.order⟩⟩
    · rintro c s' ⟨-, rfl, rfl, -⟩
      exact .refl h

theorem newPage_aged (ha : Accounted s guards []) (hr : s.disk.Reliable) (h : s.Filed) :
    newPage.Ends s (fun _ s' => Aged s s') (Kept (Aged s) True) := by
  refine (newPage_takes ha hr h).mono (fun _ _ ht => ht.aged) fun c s' hc => ?_
  cases c with
  | refused e =>
      obtain ⟨-, rfl, -⟩ := hc e rfl
      exact .refl h
  | broken c => trivial

theorem deletePage_aged (hr : s.disk.Reliable) (h : s.Filed) :
    (deletePage id).Ends s (fun _ s' => Aged s s') (Kept (Aged s) True) := by
  have hdisk : ∀ {s' : Pool n}, s'.disk = s.disk → Aged s s' →
      (onDisk ((Disk.deallocate id).mapCause Stop.refused)).Ends s'
        (fun _ s' => Aged s s') (Kept (Aged s) True) := by
    intro s' hs' h'
    refine deallocate_ends (fun _ _ _ => h') (fun _ _ => h') (fun hid _ => ⟨⟨?_, ?_⟩, h'.order⟩)
      fun b _ hb => absurd (hs' ▸ hb) (hr.not_fails b)
    · exact h'.filed.resident
    · intro other ho
      rcases List.mem_cons.mp ho with rfl | ho
      · exact hid
      · exact h'.filed.listed other ho
  refine deletePage_ends (fun _ _ _ => .refl h) (fun f _ _ => hdisk rfl ?_)
    fun _ => hdisk rfl (.refl h)
  have hself : ((s.discarded id f).frame f).resident = none :=
    congrArg Frame.resident (frame_setAt_self _ f _)
  exact ⟨h.of_vacated hself (fun g hgf => frame_setAt_ne _ f _ hgf) ⟨rfl, rfl⟩, List.erase_sublist⟩

theorem flushEntries_aged (hr : s.disk.Reliable) (h : s.Filed) {entries : List (PageId × Fin n)}
    (he : ∀ e ∈ entries, (s.frame e.2).resident = some e.1) :
    (flushEntries entries).Ends s (fun _ s' => Aged s s') (Kept (Aged s) True) := by
  let I : Pool n → Prop := fun s' => Aged s s' ∧ s'.disk.Reliable ∧
    ∀ g, (s'.frame g).resident = (s.frame g).resident
  have hkeep : ∀ e ∈ entries, ∀ s', I s' →
      (writeBack e.2 e.1).Ends s' (fun _ s'' => I s'') (Kept (Aged s) True) := by
    rintro e hmem s' ⟨h', hr', hsame⟩
    refine (writeBack_filed hr' h'.filed ((hsame e.2).trans (he e hmem))).mono ?_
      fun _ _ => False.elim
    rintro _ s'' ⟨-, hlru, -, hres, hledger, hr''⟩
    refine ⟨⟨h'.filed.of_residents hres hledger, ?_⟩, hr'', fun g => ?_⟩
    · rw [hlru]
      exact h'.order
    · exact (hres g).trans (hsame g)
  exact (flushEntries_ends (I := I) ⟨.refl h, hr, fun _ => rfl⟩ hkeep).mono (fun _ _ h => h.1)
    fun _ _ h => h

theorem flushPage_aged (ha : Accounted s guards []) (hr : s.disk.Reliable) (h : s.Filed) :
    (flushPage id).Ends s (fun _ s' => Aged s s') (Kept (Aged s) True) := by
  refine flushPage_ends (fun _ => .refl h) fun f ht => ?_
  refine (writeBack_filed hr h (ha.tabled _ (mem_of_frameOf? ht))).mono ?_ fun _ _ => False.elim
  rintro _ s' ⟨-, hlru, -, hres, hledger, -⟩
  exact ⟨h.of_residents hres hledger, by rw [hlru]⟩

end Calls

/-! ### Events -/

section Falling

variable {s s' : Pool n} {guards guards' : List (Guard n)} {f : Fin n}

theorem fallen_eq_nil (h : Accounted s guards []) (h' : Accounted s' guards' [])
    (hsub : guards ⊆ guards') : fallen s s' = [] := by
  refine List.filter_eq_nil_iff.mpr fun f _ => ?_
  rw [decide_eq_true_eq]
  rintro ⟨hpins, hzero⟩
  refine hpins (h.pins_eq_zero.mpr fun g hg => ?_)
  exact h'.pins_eq_zero.mp hzero g (hsub hg)

theorem fallen_of_one (hpins : (s.frame f).pins ≠ 0)
    (hothers : ∀ g, g ≠ f → (s'.frame g).pins = (s.frame g).pins) :
    fallen s s' = if (s'.frame f).pins = 0 then [f] else [] := by
  split
  · next hzero =>
      have hcongr : fallen s s' = (List.finRange n).filter fun g => g = f := by
        refine List.filter_congr fun g _ => ?_
        by_cases hgf : g = f
        · simp [hgf, hpins, hzero]
        · simp [hgf, hothers g hgf]
      rw [hcongr, List.filter_eq, List.count_eq_one_of_mem (List.nodup_finRange n)
        (List.mem_finRange f), List.replicate_one]
  · next hmore =>
      refine List.filter_eq_nil_iff.mpr fun g _ => ?_
      by_cases hgf : g = f
      · simp [hgf, hmore]
      · simp [hothers g hgf]

end Falling

theorem Event.aged {t : Session n} {e : Event n} (ha : Accounted t.pool t.guards [])
    (hr : t.pool.disk.Reliable) (h : t.pool.Filed) (he : e.Offered t) (hne : ∀ g, e ≠ .release g) :
    e.task.Ends t.pool (fun _ s => Aged t.pool s) (Kept (Aged t.pool) True) := by
  cases e with
  | newPage => exact ends_map.mpr (newPage_aged ha hr h)
  | fetch id access => exact ends_map.mpr (fetch_aged ha hr h access)
  | deletePage id => exact ends_map.mpr (deletePage_aged hr h)
  | flushPage id => exact ends_map.mpr (flushPage_aged ha hr h)
  | flushAll order =>
      refine ends_map.mpr (flushEntries_aged hr h fun e hmem => ?_)
      exact ha.tabled e ((List.Perm.mem_iff he).mp hmem)
  | release g => exact absurd rfl (hne g)
  | update g p =>
      refine ends_map.mpr (update_ends ⟨h.of_residents (fun f => ?_) ⟨rfl, rfl⟩,
        List.Sublist.refl _⟩)
      exact field_setAt t.pool g.frame Frame.resident (by rfl) f
  | tamper file => exact ⟨⟨h.resident, h.listed⟩, List.Sublist.refl _⟩

/-- The last release of a frame puts it behind the others, and another release changes nothing in
the order. -/
theorem Event.release_falls {t : Session n} {g : Guard n} (ha : Accounted t.pool t.guards [])
    (h : t.pool.Filed) (hg : g ∈ t.guards) :
    (Event.release g).task.Ends t.pool
      (fun _ s => s.Filed ∧
        (fallen t.pool s = [g.frame] ∧ s.lru = t.pool.lru.release g.frame ∨
          fallen t.pool s = [] ∧ s.lru = t.pool.lru)) fun _ _ => False := by
  generalize hu : t.pool.unpinned g.frame (g.access = .write) = u
  have hfiled : u.Filed := by
    refine h.of_residents (fun f => ?_) (hu ▸ ⟨rfl, rfl⟩)
    rw [← hu]
    exact field_setAt t.pool g.frame Frame.resident (by rfl) f
  have hothers : ∀ f, f ≠ g.frame → (u.frame f).pins = (t.pool.frame f).pins := by
    intro f hf
    rw [← hu]
    exact congrArg Frame.pins (frame_setAt_ne t.pool g.frame _ hf)
  have hself : (u.frame g.frame).pins = (t.pool.frame g.frame).pins - 1 := by
    rw [← hu]
    exact congrArg Frame.pins (frame_setAt_self t.pool g.frame _)
  have hlru : u.lru = t.pool.lru := hu ▸ rfl
  have hpins := ha.pins_ne_zero hg
  have hfall := fallen_of_one hpins hothers
  rw [hself] at hfall
  refine ends_map.mpr (release_ends hpins (fun hlast => ?_) fun hmore => ?_)
  · rw [if_pos hlast] at hfall
    rw [hu]
    exact ⟨⟨hfiled.resident, hfiled.listed⟩, .inl ⟨hfall, congrArg (·.release g.frame) hlru⟩⟩
  · rw [if_neg hmore] at hfall
    rw [hu]
    exact ⟨hfiled, .inr ⟨hfall, hlru⟩⟩

theorem Step.ranked {t u : Session n} {e : Event n} {o : Outcome n} {l : List (Fin n)}
    (ha : Accounted t.pool t.guards []) (hr : t.pool.disk.Reliable) (h : t.pool.Filed)
    (hl : t.pool.lru.order.Sublist l.dedup) (hs : Step t e o u) :
    u.pool.Filed ∧ u.pool.lru.order.Sublist (l ++ fallen t.pool u.pool).dedup := by
  have ha' := hs.accounted ha
  by_cases hrelease : ∃ g, e = .release g
  · obtain ⟨g, rfl⟩ := hrelease
    cases hs with
    | answered he hx =>
        obtain ⟨hfiled, hfall⟩ := (Event.release_falls ha h he).of_ok hx
        refine ⟨hfiled, ?_⟩
        rcases hfall with ⟨hfall, hlru⟩ | ⟨hfall, hlru⟩
        · rw [hfall, hlru, dedup_concat]
          exact (hl.erase g.frame).append (List.Sublist.refl _)
        · rwa [hfall, hlru, List.append_nil]
    | refused he hx => exact ((Event.release_falls ha h he).of_error hx).elim
  · have hne : ∀ g, e ≠ .release g := fun g he => hrelease ⟨g, he⟩
    have hkept : e.kept t.guards = t.guards := by
      cases e with
      | release g => exact absurd rfl (hne g)
      | _ => rfl
    have hstay : Aged t.pool u.pool ∧ t.guards ⊆ u.guards := by
      cases hs with
      | answered he hx =>
          refine ⟨(Event.aged ha hr h he hne).of_ok hx, ?_⟩
          rw [hkept]
          exact List.subset_append_right _ _
      | refused he hx => exact ⟨(Event.aged ha hr h he hne).of_error hx, fun _ hg => hg⟩
    obtain ⟨haged, hsub⟩ := hstay
    rw [fallen_eq_nil ha ha' hsub, List.append_nil]
    exact ⟨haged.filed, haged.order.trans hl⟩

/-- In every session of a run the eviction order tells its frames by their latest falls. -/
theorem Run.ranked {disk : Disk} {s : Pool n} {h : List (Entry n)} {t : Session n}
    (hr : s.disk.Reliable) (hd : disk.Sound) (hs : Pool.ofDisk n disk = .ok s)
    (hrun : Run ⟨s, []⟩ h t) :
    t.pool.Filed ∧ t.pool.lru.order.Sublist (falls (path h t)).dedup := by
  induction hrun with
  | start =>
      obtain ⟨hframe, -, -, hlru, rfl⟩ := ofDisk_parts hs
      refine ⟨⟨fun f id hf => ?_, hd.listed⟩, ?_⟩
      · rw [hframe] at hf
        cases hf
      · rw [hlru]
        exact List.nil_sublist _
  | @step h u v e o hrun hstep ih =>
      rw [falls_step]
      exact hstep.ranked (hrun.accounted hs) (hrun.reliable (ofDisk_accounted hs) hr) ih.1 ih.2

/-! ### Runs -/

/-- The event needs a frame for a page that is not in memory. -/
def Event.NeedsFrame (t : Session n) : Event n → Prop
  | newPage => True
  | fetch id _ => id.isValid ∧ t.pool.frameOf? id = none
  | _ => False

/-- The frame that a call took: its guard has it, or it has been given back. -/
def Outcome.Took (u : Session n) (f : Fin n) : Outcome n → Prop
  | .ok (some g) => g.frame = f
  | .ok none => False
  | .error _ => u.pool.free.head? = some f

theorem Step.takes {t u : Session n} {e : Event n} {o : Outcome n}
    (ha : Accounted t.pool t.guards []) (hr : t.pool.disk.Reliable) (h : t.pool.Filed)
    (he : e.NeedsFrame t) (hs : Step t e o u) :
    o = .error .noFreeFrames ∧ u = t ∧ t.pool.Exhausted ∨
      ∃ f s, Taken t.pool f s ∧ Outcome.Took u f o ∧ (∀ g, u.pool.frame g = s.frame g) ∧
        ∀ id, u.pool.frameOf? id = s.frameOf? id := by
  have hends : e.task.Ends t.pool (fun o s => ∃ g, o = some g ∧ Taken t.pool g.frame s)
      fun c s' => ∀ e, c = .refused e → e = .noFreeFrames ∧ s' = t.pool ∧ t.pool.Exhausted ∨
        ∃ f s, Taken t.pool f s ∧ s' = s.returned f := by
    cases e with
    | newPage =>
        exact ends_map.mpr ((newPage_takes ha hr h).mono (fun g _ hg => ⟨g, rfl, hg⟩)
          fun _ _ hc e he => .inl (hc e he))
    | fetch id access =>
        exact ends_map.mpr ((fetch_takes ha hr h he.1 he.2).mono (fun g _ hg => ⟨g, rfl, hg⟩)
          fun _ _ hc => hc)
    | _ => exact he.elim
  cases hs with
  | answered _ hx =>
      obtain ⟨g, rfl, hg⟩ := hends.of_ok hx
      exact .inr ⟨g.frame, _, hg, rfl, fun _ => rfl, fun _ => rfl⟩
  | refused _ hx =>
      rcases hends.of_error hx _ rfl with ⟨rfl, rfl, hfull⟩ | ⟨f, s, hs, rfl⟩
      · exact .inl ⟨rfl, rfl, hfull⟩
      · exact .inr ⟨f, s, hs, rfl, fun _ => rfl, fun _ => rfl⟩

/-- With no free frame, the one whose turn it is fell to zero longest ago. -/
theorem Taken.earliest {s s' : Pool n} {guards : List (Guard n)} {l : List (Fin n)} {f : Fin n}
    (ha : Accounted s guards []) (hl : s.lru.order.Sublist l.dedup) (h : Taken s f s')
    (hfree : s.free = []) : Earliest l (fun g => (s.frame g).pins = 0) f := by
  have hturn := h.turn
  rw [hfree, List.nil_append] at hturn
  rw [hturn] at hl
  refine earliest_of_sublist hl (ha.unpinned (.inr (.inl (hturn ▸ List.mem_cons_self)))) ?_
  intro g hg
  have honce := ha.once g
  rw [hfree, if_pos hg, List.count_nil] at honce
  exact hturn ▸ List.count_pos_iff.mp (by omega)

/-- Along every run, a new page and a page that is not in memory get a frame, but at a limit of the
machine, unless all frames are pinned; nothing happens then.  No other frame changes.  While frames
are free, one without a page is taken, and the pages in memory stay there.  With none free, of all
frames without pins the one is taken whose pins fell to zero longest ago, by its latest fall.  A
replacer by itself evicts, after any requests, the candidate whose latest release is the earliest,
fails only without candidates, and counts them. -/
theorem Run.takes_earliest {file : Option File} {disk : Disk} {s : Pool n} {h : List (Entry n)}
    {t : Session n} (hd : Disk.openOrCreate file = .ok disk) (hs : Pool.ofDisk n disk = .ok s)
    (hrun : Run ⟨s, []⟩ h t) :
    (∀ e : Event n, e.NeedsFrame t → (e.AtLimit t ∨ ∃ o u, Step t e o u) ∧
      ∀ o u, Step t e o u →
        (o = .error .noFreeFrames ∧ u = t ∧ ∀ f, (t.pool.frame f).pins ≠ 0) ∨
        ∃ f, Outcome.Took u f o ∧ (∀ g, g ≠ f → u.pool.frame g = t.pool.frame g) ∧
          (t.pool.free ≠ [] → (t.pool.frame f).resident = none ∧
            ∀ id, t.pool.frameOf? id ≠ none → u.pool.frameOf? id ≠ none) ∧
          (t.pool.free = [] →
            Earliest (falls (path h t)) (fun g => (t.pool.frame g).pins = 0) f)) ∧
    ∀ (α : Type) [DecidableEq α] (rs : List (Lru.Request α)),
      (∀ a, ((Lru.serveAll rs).2.serve .evict).1 = some a →
        Earliest (Lru.releases (Lru.serveAll rs).1) (· ∈ Lru.tracked (Lru.serveAll rs).1) a) ∧
      (((Lru.serveAll rs).2.serve .evict).1 = none ↔ Lru.tracked (Lru.serveAll rs).1 = ∅) ∧
      (Lru.tracked (Lru.serveAll rs).1).Finite ∧
      (Lru.serveAll rs).2.size = (Lru.tracked (Lru.serveAll rs).1).ncard := by
  have ha := hrun.accounted hs
  have hr₀ : s.disk.Reliable := (ofDisk_parts hs).2.2.2.2 ▸ Disk.openOrCreate_reliable hd
  have hr := hrun.reliable (ofDisk_accounted hs) hr₀
  obtain ⟨hfiled, hl⟩ := hrun.ranked hr₀ (Disk.openOrCreate_sound hd) hs
  refine ⟨fun e he => ⟨?_, fun o u hstep => ?_⟩, fun α _ rs => (Lru.ordered_serveAll rs).evicts⟩
  · have hoffered : e.Offered t := by
      cases e with
      | newPage => trivial
      | fetch id access => trivial
      | _ => exact he.elim
    have hends := e.accounted ha hoffered
    cases hx : e.task t.pool with
    | ok o s' => exact .inr ⟨_, _, .answered hoffered hx⟩
    | error c s' =>
        cases c with
        | refused c => exact .inr ⟨_, _, .refused hoffered hx⟩
        | broken c => exact .inl (hends.of_error hx)
  · rcases hstep.takes ha hr hfiled he with ⟨ho, hu, hfull⟩ | ⟨f, s', ht, htook, hframe, htable⟩
    · refine .inl ⟨ho, hu, fun f => ?_⟩
      obtain ⟨g, hg, rfl⟩ := ha.exhausted_iff.mp hfull f
      exact ha.pins_ne_zero hg
    · refine .inr ⟨f, htook, fun g hg => (hframe g).trans (ht.others g hg), fun hne => ⟨?_, ?_⟩,
        ht.earliest ha hl⟩
      · have hturn := ht.turn
        cases hfree : t.pool.free with
        | nil => exact absurd hfree hne
        | cons g rest =>
            rw [hfree] at hturn
            obtain rfl : g = f := (List.cons.inj hturn).1
            exact (ha.vacant g (hfree ▸ List.mem_cons_self)).1
      · intro id hid
        rw [htable]
        exact ht.kept hne id hid

/-- Two frames, of which the second one is released first and so is the one to be taken. -/
theorem takes_earliest_two :
    ∃ (s : Pool 2) (t : Session 2) (h : List (Entry 2)),
      Disk.openOrCreate none = .ok ⟨.empty, 0, [], []⟩ ∧ Pool.ofDisk 2 ⟨.empty, 0, [], []⟩ = .ok s ∧
        Run ⟨s, []⟩ h t ∧ t.pool.free = [] ∧
        (∃ u, Step t .newPage (.ok (some ⟨1, ⟨2⟩, .write⟩)) u) ∧
        Earliest (falls (path h t)) (fun g => (t.pool.frame g).pins = 0) 1 := by
  let a : Guard 2 := ⟨0, ⟨0⟩, .write⟩
  let b : Guard 2 := ⟨1, ⟨1⟩, .write⟩
  let file : File := File.empty.writePage 0 Page.zero
  let file' : File := file.writePage 1 Page.zero
  let s : Pool 2 := ⟨#v[⟨Page.zero, none, 0, false⟩, ⟨Page.zero, none, 0, false⟩], [], [0, 1], ⟨[]⟩,
    ⟨.empty, 0, [], []⟩⟩
  let s₁ : Pool 2 := ⟨#v[⟨Page.zero, some ⟨0⟩, 1, false⟩, ⟨Page.zero, none, 0, false⟩],
    [(⟨0⟩, 0)], [1], ⟨[]⟩, ⟨file, 1, [], []⟩⟩
  let s₂ : Pool 2 := ⟨#v[⟨Page.zero, some ⟨0⟩, 1, false⟩, ⟨Page.zero, some ⟨1⟩, 1, false⟩],
    [(⟨1⟩, 1), (⟨0⟩, 0)], [], ⟨[]⟩, ⟨file', 2, [], []⟩⟩
  let s₃ : Pool 2 := ⟨#v[⟨Page.zero, some ⟨0⟩, 1, false⟩, ⟨Page.zero, some ⟨1⟩, 0, true⟩],
    [(⟨1⟩, 1), (⟨0⟩, 0)], [], ⟨[1]⟩, ⟨file', 2, [], []⟩⟩
  let s₄ : Pool 2 := ⟨#v[⟨Page.zero, some ⟨0⟩, 0, true⟩, ⟨Page.zero, some ⟨1⟩, 0, true⟩],
    [(⟨1⟩, 1), (⟨0⟩, 0)], [], ⟨[1, 0]⟩, ⟨file', 2, [], []⟩⟩
  have h₁ : Step ⟨s, []⟩ .newPage (.ok (some a)) ⟨s₁, [a]⟩ := .answered trivial rfl
  have h₂ : Step ⟨s₁, [a]⟩ .newPage (.ok (some b)) ⟨s₂, [b, a]⟩ :=
    .answered trivial (by with_unfolding_all rfl)
  have h₃ : Step ⟨s₂, [b, a]⟩ (.release b) (.ok none) ⟨s₃, [a]⟩ :=
    .answered List.mem_cons_self (by with_unfolding_all rfl)
  have h₄ : Step ⟨s₃, [a]⟩ (.release a) (.ok none) ⟨s₄, []⟩ :=
    .answered List.mem_cons_self (by with_unfolding_all rfl)
  have hrun := Run.step (.step (.step (.step .start h₁) h₂) h₃) h₄
  have hd : Disk.openOrCreate none = .ok ⟨.empty, 0, [], []⟩ := rfl
  have hs : Pool.ofDisk 2 ⟨.empty, 0, [], []⟩ = .ok s := rfl
  have hlast : ∃ u, Step ⟨s₄, []⟩ .newPage (.ok (some ⟨1, ⟨2⟩, .write⟩)) u :=
    ⟨⟨_, _⟩, .answered trivial (by with_unfolding_all rfl)⟩
  refine ⟨s, ⟨s₄, []⟩, _, hd, hs, hrun, rfl, hlast, ?_⟩
  obtain ⟨u, hu⟩ := hlast
  rcases ((Run.takes_earliest hd hs hrun).1 .newPage trivial).2 _ u hu with
    ⟨ho, -⟩ | ⟨f, htook, -, -, hevicted⟩
  · cases ho
  · obtain rfl : 1 = f := htook
    exact hevicted rfl

end PagedIndex.Pool
