import PagedIndex.Proofs.Disk.Run

/-! # Recycling of identifiers

The mark of a released page is a byte that the users of a store can write as well.  As long as
they do not, and leave released pages alone (`Event.Proper`), the marks in the file are exactly the
stack of released pages: `Marked` is one half of this and `Plain` the other.  Then a page in use
stays in use until it is released, even if the file is closed and opened in between, so no
identifier is handed out to two owners (`Run.recycles`). -/

namespace PagedIndex.Disk

open PagedIndex.Action

/-- Only released pages carry the mark of one. -/
def Plain (d : Disk) : Prop := ∀ id, d.Live id → (d.image id).kind ≠ .free

/-- The event leaves released pages alone and marks no other ones. -/
def Event.Proper (d : Disk) : Event → Prop
  | write id p => id ∉ d.free ∧ p.kind ≠ .free
  | _ => True

/-- The event hands out the page `id`. -/
def Entry.HandsOut (x : Entry) (id : PageId) : Prop :=
  x.event = .allocate ∧ x.outcome = .ok (.page id)

/-- The event takes back the page `id`. -/
def Entry.TakesBack (x : Entry) (id : PageId) : Prop :=
  x.event = .deallocate id ∧ x.outcome = .ok .done

section Steps

variable {d d' : Disk} {e : Event} {o : Outcome} {id : PageId}

theorem mem_free_reopened_iff (hm : d.Marked) (hp : d.Plain) :
    id ∈ d.reopened.free ↔ id ∈ d.free := by
  rw [mem_free_reopened]
  constructor
  · rintro ⟨hid, hkind⟩
    exact Decidable.not_not.mp fun hno => hp id ⟨hid, hno⟩ hkind
  · exact fun hfree => ⟨hm.sound.listed id hfree, hm.marked id hfree⟩

theorem Effect.marked (hm : d.Marked) (hp : d.Plain) (hproper : e.Proper d)
    (he : Effect d e o d') : d'.Marked ∧ d'.Plain := by
  cases he with
  | @reused id rest hfree =>
      refine ⟨hm.reused hfree, fun other ho => ?_⟩
      rw [image_reused]
      split
      · simp [Page.kind_zero]
      · next hne => exact hp other (((live_reused hm.sound hfree).mp ho).resolve_left hne)
  | grown hfree hvalid =>
      refine ⟨hm.grown hfree hvalid, fun other ho => ?_⟩
      rw [image_grown]
      split
      · simp [Page.kind_zero]
      · next hne => exact hp other (((live_grown hfree hvalid).mp ho).resolve_left hne)
  | @released id hid =>
      refine ⟨hm.released hid, fun other ho => ?_⟩
      obtain ⟨hne, hlive⟩ := live_released.mp ho
      have himage : (d.released id).image other = d.image other := image_put_ne hne
      rw [himage]
      exact hp other hlive
  | spared hid hfree => exact ⟨hm, hp⟩
  | @written id p hid =>
      refine ⟨hm.put ⟨hid, hproper.1⟩ p, fun other ho => ?_⟩
      by_cases hne : other = id
      · rw [hne, image_put_self, Page.stamped_kind]
        exact hproper.2
      · rw [image_put_ne hne]
        exact hp other ho
  | shown hp' => exact ⟨hm, hp⟩
  | opened =>
      rw [hm.exact.ofFile_eq]
      exact ⟨.reopened hm.exact, fun other ho => (live_reopened.mp ho).2⟩
  | refused htarget hid => exact ⟨hm, hp⟩
  | damaged hid hp' => exact ⟨hm, hp⟩

theorem Effect.live_of_page (hm : d.Marked) (he : Effect d .allocate (.ok (.page id)) d') :
    d'.Live id := by
  cases he with
  | reused hfree => exact (live_reused hm.sound hfree).mpr (.inl rfl)
  | grown hfree hvalid => exact (live_grown hfree hvalid).mpr (.inl rfl)

/-- A page in use is not handed out, and it stays in use unless it is taken back. -/
theorem Effect.live_kept (hm : d.Marked) (hp : d.Plain) (he : Effect d e o d') (hid : d.Live id)
    (hkeep : ¬ Entry.TakesBack ⟨d, e, o⟩ id) : d'.Live id ∧ ¬ Entry.HandsOut ⟨d, e, o⟩ id := by
  cases he with
  | @reused top rest hfree =>
      refine ⟨(live_reused hm.sound hfree).mpr (.inr hid), ?_⟩
      rintro ⟨-, ho⟩
      cases ho
      exact not_live_top hfree hid
  | grown hfree hvalid =>
      refine ⟨(live_grown hfree hvalid).mpr (.inr hid), ?_⟩
      rintro ⟨-, ho⟩
      cases ho
      exact d.not_live_next hid
  | @released other ho =>
      refine ⟨live_released.mpr ⟨?_, hid⟩, nofun⟩
      rintro rfl
      exact hkeep ⟨rfl, rfl⟩
  | spared ho hfree => exact ⟨hid, nofun⟩
  | written ho => exact ⟨hid, nofun⟩
  | shown hp' => exact ⟨hid, nofun⟩
  | opened =>
      rw [hm.exact.ofFile_eq]
      exact ⟨live_reopened.mpr ⟨hid.1, hp id hid⟩, nofun⟩
  | refused htarget ho => exact ⟨hid, nofun⟩
  | damaged ho hp' => exact ⟨hid, nofun⟩

theorem Effect.grows (hm : d.Marked) (he : Effect d e o d')
    (hlonger : d.file.length < d'.file.length) : e = .allocate ∧ d.free = [] := by
  have hover : ∀ {id p}, d.Holds id →
      ¬ d.file.length < (d.file.writePage id.toNat p).length := fun hid => by
    rw [hm.exact.overwritten hid]
    exact Nat.lt_irrefl _
  cases he with
  | grown hfree hvalid => exact ⟨rfl, hfree⟩
  | @reused id rest hfree =>
      exact absurd hlonger (hover (hm.sound.listed id (hfree ▸ List.mem_cons_self)))
  | released hid => exact absurd hlonger (hover hid.1)
  | written hid => exact absurd hlonger (hover hid)
  | opened => exact absurd hlonger (Nat.lt_irrefl _)
  | spared hid hfree => exact absurd hlonger (Nat.lt_irrefl _)
  | shown hp => exact absurd hlonger (Nat.lt_irrefl _)
  | refused htarget hid => exact absurd hlonger (Nat.lt_irrefl _)
  | damaged hid hp => exact absurd hlonger (Nat.lt_irrefl _)

end Steps

/-! ### Runs -/

theorem create_plain {d : Disk} (hd : Disk.create none = .ok d) : d.Plain := by
  obtain rfl : d = ⟨.empty, 0, [], []⟩ := (Except.ok.inj hd).symm
  exact fun id hid => absurd hid.1.2 UInt32.not_lt_zero

section Runs

variable {d u : Disk} {h : List Entry} {id : PageId}

theorem Run.marked (hr : d.Reliable) (hd : d.Marked ∧ d.Plain) (hrun : Run d h u)
    (hproper : ∀ x ∈ h, x.event.Proper x.before) : u.Marked ∧ u.Plain := by
  induction hrun with
  | start => exact hd
  | @step h u v e o hrun hs ih =>
      rw [List.forall_mem_append, List.forall_mem_singleton] at hproper
      obtain ⟨hm, hp⟩ := ih hproper.1
      exact (hrun.effect hr hs).marked hm hp hproper.2

/-- A page in use is not handed out, and it stays in use, until it is taken back. -/
theorem Run.live_kept (hr : d.Reliable) (hd : d.Marked ∧ d.Plain) (hrun : Run d h u)
    (hproper : ∀ x ∈ h, x.event.Proper x.before) (hid : d.Live id)
    (hkeep : ∀ x ∈ h, ¬ x.TakesBack id) : u.Live id ∧ ∀ x ∈ h, ¬ x.HandsOut id := by
  induction hrun with
  | start => exact ⟨hid, nofun⟩
  | @step h u v e o hrun hs ih =>
      rw [List.forall_mem_append, List.forall_mem_singleton] at hproper hkeep ⊢
      obtain ⟨hlive, hall⟩ := ih hproper.1 hkeep.1
      obtain ⟨hm, hp⟩ := hrun.marked hr hd hproper.1
      obtain ⟨hlive', hlast⟩ := (hrun.effect hr hs).live_kept hm hp hlive hkeep.2
      exact ⟨hlive', hall, hlast⟩

/-- Between two events that hand out the same page there is one that takes it back. -/
theorem Run.takesBack_between (hr : d.Reliable) (hd : d.Marked ∧ d.Plain)
    {before between after : List Entry} {x y : Entry}
    (hrun : Run d (before ++ x :: (between ++ y :: after)) u)
    (hproper : ∀ z ∈ before ++ x :: (between ++ y :: after), z.event.Proper z.before)
    (hx : x.HandsOut id) (hy : y.HandsOut id) : ∃ z ∈ between, z.TakesBack id := by
  simp only [List.forall_mem_append, List.forall_mem_cons] at hproper
  obtain ⟨hbefore, hpx, hbetween, -, -⟩ := hproper
  obtain ⟨v, hrun₁, hsx, hrun'⟩ := hrun.split
  obtain ⟨w, hrun₂, hsy, -⟩ := hrun'.split
  have hx' := hrun₁.effect hr hsx
  have hrv := hx'.reliable (hrun₁.reliable hr)
  obtain ⟨hm, hp⟩ := hrun₁.marked hr hd hbefore
  have hv := hx'.marked hm hp hpx
  have hlive : v.Live id := by
    rw [hx.1, hx.2] at hx'
    exact hx'.live_of_page hm
  refine Classical.byContradiction fun hno => ?_
  have hkeep : ∀ z ∈ between, ¬ z.TakesBack id := fun z hz ht => hno ⟨z, hz, ht⟩
  have hlive' := (hrun₂.live_kept hrv hv hbetween hlive hkeep).1
  obtain ⟨hm', hp'⟩ := hrun₂.marked hrv hv hbetween
  refine ((hrun₂.effect hrv hsy).live_kept hm' hp' hlive' ?_).2 hy
  rintro ⟨he, -⟩
  rw [hy.1] at he
  cases he

/-- All along a proper run over a new file the stack of released pages has no page twice and none
beyond the last page, a page that is handed out is valid and is not handed out again before it is
taken back, the file grows only when the stack is empty, releasing a page again changes nothing,
and the file opens with as many pages and the same stack, sorted. -/
theorem Run.recycles {d₀ : Disk} (hd : Disk.create none = .ok d₀) (hrun : Run d₀ h d)
    (hproper : ∀ x ∈ h, x.event.Proper x.before) :
    (d.free.Nodup ∧ ∀ id ∈ d.free, id.val < d.pageCount) ∧
    (∀ id d', Step d .allocate (.ok (.page id)) d' → id.isValid ∧ id.val < d'.pageCount) ∧
    (∀ before x between y after id, h = before ++ x :: (between ++ y :: after) →
      x.HandsOut id → y.HandsOut id → ∃ z ∈ between, z.TakesBack id) ∧
    (∀ e o d', Step d e o d' → d.file.length < d'.file.length → e = .allocate ∧ d.free = []) ∧
    (∀ id ∈ d.free, deallocate id d = .ok () d) ∧
    ∃ d', openExisting (some d.file) = .ok d' ∧ d'.file = d.file ∧ d'.pageCount = d.pageCount ∧
      (∀ id, id ∈ d'.free ↔ id ∈ d.free) ∧ d'.free.reverse.Pairwise fun a b => a.val < b.val := by
  have hstart := And.intro (create_marked hd) (create_plain hd)
  have hr := create_reliable hd
  obtain ⟨hm, hp⟩ := hrun.marked hr hstart hproper
  refine ⟨⟨hm.sound.nodup, fun id hid => (hm.sound.listed id hid).2⟩, ?_, ?_, ?_, ?_, ?_⟩
  · intro id d' hs
    exact ((hrun.effect hr hs).live_of_page hm).1
  · rintro before x between y after id rfl hx hy
    exact hrun.takesBack_between hr hstart hproper hx hy
  · intro e o d' hs hlonger
    exact (hrun.effect hr hs).grows hm hlonger
  · intro id hid
    have hends : (deallocate id).Ends d (fun _ d' => d' = d) fun _ _ => False :=
      deallocate_ends (fun _ _ => rfl) (fun hlive => absurd hid hlive.2)
        (fun hno => absurd (hm.sound.listed id hid) hno) fun _ hlive => absurd hid hlive.2
    obtain ⟨_, d', hx, rfl⟩ := hends.answers
    exact hx
  · exact ⟨d.reopened, openExisting_file hm.exact, rfl, rfl,
      fun id => mem_free_reopened_iff hm hp, ascending_reopened⟩

end Runs

/-- Of two pages one is released, and it is the one that the reopened store hands out. -/
theorem recycles_two :
    ∃ (d d' : Disk) (h : List Entry), Run ⟨.empty, 0, [], []⟩ h d ∧
      openExisting (some d.file) = .ok d' ∧ d'.pageCount = 2 ∧ ⟨0⟩ ∈ d'.free ∧ ⟨1⟩ ∉ d'.free := by
  let file : File := (File.empty.writePage 0 Page.zero).writePage 1 Page.zero
  let d : Disk := released ⟨file, 2, [], []⟩ ⟨0⟩
  have h₁ : Step ⟨.empty, 0, [], []⟩ .allocate (.ok (.page ⟨0⟩))
      ⟨File.empty.writePage 0 Page.zero, 1, [], []⟩ := .answered rfl
  have h₂ : Step ⟨File.empty.writePage 0 Page.zero, 1, [], []⟩ .allocate (.ok (.page ⟨1⟩))
      ⟨file, 2, [], []⟩ := .answered rfl
  have h₃ : Step ⟨file, 2, [], []⟩ (.deallocate ⟨0⟩) (.ok .done) d := .answered rfl
  have hrun := Run.step (.step (.step .start h₁) h₂) h₃
  obtain ⟨-, -, -, -, -, d', hopen, -, hcount, hfree, -⟩ :=
    Run.recycles rfl hrun (by simp [Event.Proper])
  refine ⟨d, d', _, hrun, hopen, hcount, (hfree ⟨0⟩).mpr List.mem_cons_self, ?_⟩
  rw [hfree]
  exact fun hmem => absurd hmem (by decide)

end PagedIndex.Disk
