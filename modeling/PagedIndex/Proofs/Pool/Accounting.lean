import Mathlib.Data.List.Nodup
import Mathlib.Tactic.Ring
import PagedIndex.Proofs.Pool.Calls
import PagedIndex.Proofs.Pool.Run

/-! # Frame accounting

`Accounted s guards hand` says that every frame of the pool `s` is in one place, counted once: on
the free stack, in the eviction order, pinned by a guard, or in `hand`, taken by a call that is
still running.  Between two calls `hand` is empty.  Every call keeps the accounts, whichever way
it comes back, so they are in order in every session of every run. -/

namespace PagedIndex.Pool

open PagedIndex.Action

variable {n : Nat}

/-- Guards that pin the frame `f`. -/
def holds (guards : List (Guard n)) (f : Fin n) : Nat := guards.countP fun g => g.frame = f

/-- Every frame in one place, counted once. -/
structure Accounted (s : Pool n) (guards : List (Guard n)) (hand : List (Fin n)) : Prop where
  /-- Pin counters count guards. -/
  pins : ∀ f, (s.frame f).pins.toNat = holds guards f
  once : ∀ f, s.free.count f + s.lru.order.count f + hand.count f +
    (if (s.frame f).pins = 0 then 0 else 1) = 1
  /-- A guard's page stays in its frame. -/
  held : ∀ g ∈ guards, (s.frame g.frame).resident = some g.page
  vacant : ∀ f ∈ s.free, (s.frame f).resident = none ∧ (s.frame f).dirty = false
  /-- The table points only at frames that hold the page. -/
  tabled : ∀ e ∈ s.table, (s.frame e.2).resident = some e.1

theorem toNat_add_one {x : UInt32} (h : x + 1 ≠ 0) : (x + 1).toNat = x.toNat + 1 := by
  have hx := x.toNat_lt
  rw [ne_eq, ← UInt32.toNat_inj, UInt32.toNat_add] at h
  rw [UInt32.toNat_add]
  simp only [UInt32.toNat_one, UInt32.toNat_zero] at h ⊢
  omega

theorem toNat_sub_one {x : UInt32} (h : x ≠ 0) : (x - 1).toNat = x.toNat - 1 := by
  have hx := x.toNat_lt
  rw [ne_eq, ← UInt32.toNat_inj, UInt32.toNat_zero] at h
  rw [UInt32.toNat_sub, UInt32.toNat_one]
  omega

namespace Accounted

variable {s : Pool n} {guards : List (Guard n)} {hand : List (Fin n)} {f : Fin n}

/-! ### Where a frame is -/

/-- The pin counter of a frame is at zero when no guard pins it, and only then. -/
theorem pins_eq_zero (h : Accounted s guards hand) :
    (s.frame f).pins = 0 ↔ ∀ g ∈ guards, g.frame ≠ f := by
  rw [← UInt32.toNat_inj, h.pins f, UInt32.toNat_zero, holds, List.countP_eq_zero]
  simp only [decide_eq_true_eq]

theorem pins_ne_zero (h : Accounted s guards hand) {g : Guard n} (hg : g ∈ guards) :
    (s.frame g.frame).pins ≠ 0 := fun hzero => h.pins_eq_zero.mp hzero g hg rfl

theorem unpinned (h : Accounted s guards hand) (hf : f ∈ s.free ∨ f ∈ s.lru.order ∨ f ∈ hand) :
    (s.frame f).pins = 0 := by
  by_contra hne
  have honce := h.once f
  rw [if_neg hne] at honce
  rcases hf with hf | hf | hf <;> have := List.count_pos_iff.mpr hf <;> omega

theorem not_mem_free (h : Accounted s guards hand) (hf : f ∈ hand ∨ (s.frame f).resident ≠ none) :
    f ∉ s.free := by
  intro hfree
  rcases hf with hf | hf
  · have honce := h.once f
    have := List.count_pos_iff.mpr hfree
    have := List.count_pos_iff.mpr hf
    omega
  · exact hf (h.vacant f hfree).1

/-- A frame with a page that no guard pins is a candidate for eviction. -/
theorem mem_order (h : Accounted s guards []) (hres : (s.frame f).resident ≠ none)
    (hpins : (s.frame f).pins = 0) : f ∈ s.lru.order := by
  have honce := h.once f
  rw [if_pos hpins, List.count_eq_zero.mpr (h.not_mem_free (.inr hres)), List.count_nil] at honce
  exact List.count_pos_iff.mp (by omega)

theorem not_mem_order (h : Accounted s guards hand) (hpins : (s.frame f).pins ≠ 0) :
    f ∉ s.lru.order := fun hf => hpins (h.unpinned (.inr (.inl hf)))

theorem not_tabled (h : Accounted s guards hand) (hres : (s.frame f).resident = none) :
    ∀ e ∈ s.table, e.2 ≠ f := by
  rintro e he rfl
  exact absurd (h.tabled e he) (by simp [hres])

/-- With nothing free and nothing to evict, every frame is pinned, and the other way round. -/
theorem exhausted_iff (h : Accounted s guards []) :
    s.Exhausted ↔ ∀ f, ∃ g ∈ guards, g.frame = f := by
  constructor
  · rintro ⟨hfree, horder⟩ f
    have honce := h.once f
    rw [hfree, horder] at honce
    by_contra hno
    have hzero : (s.frame f).pins = 0 := h.pins_eq_zero.mpr fun g hg hgf => hno ⟨g, hg, hgf⟩
    simp [hzero] at honce
  · intro hall
    have hnone : ∀ f, f ∉ s.free ∧ f ∉ s.lru.order := by
      intro f
      obtain ⟨g, hg, rfl⟩ := hall f
      have hpins := h.pins_ne_zero hg
      exact ⟨fun hf => hpins (h.unpinned (.inl hf)), h.not_mem_order hpins⟩
    exact ⟨List.eq_nil_iff_forall_not_mem.mpr fun f => (hnone f).1,
      List.eq_nil_iff_forall_not_mem.mpr fun f => (hnone f).2⟩

theorem exhausted_iff_pinned (h : Accounted s guards []) :
    s.Exhausted ↔ ∀ f, (s.frame f).pins ≠ 0 := by
  rw [h.exhausted_iff]
  refine forall_congr' fun f => ?_
  rw [ne_eq, h.pins_eq_zero]
  simp

/-! ### Moving a frame -/

/-- Frames go from one place to another. -/
theorem moved (h : Accounted s guards hand) {free order hand' : List (Fin n)}
    (hcount : ∀ f, free.count f + order.count f + hand'.count f =
      s.free.count f + s.lru.order.count f + hand.count f)
    (hfree : ∀ f ∈ free, (s.frame f).resident = none ∧ (s.frame f).dirty = false) :
    Accounted { s with free, lru := ⟨order⟩ } guards hand' where
  pins := h.pins
  once f := (congrArg (· + _) (hcount f)).trans (h.once f)
  held := h.held
  vacant := hfree
  tabled := h.tabled

theorem takeFree (h : Accounted s guards []) {rest : List (Fin n)} (hs : s.free = f :: rest) :
    Accounted { s with free := rest } guards [f] := by
  refine h.moved ?_ fun f' hf' => h.vacant f' (hs ▸ List.mem_cons_of_mem _ hf')
  intro f'
  rw [hs, List.count_cons, List.count_cons, List.count_nil]
  ring

theorem takeOldest (h : Accounted s guards []) {rest : List (Fin n)}
    (hs : s.lru.order = f :: rest) : Accounted { s with lru := ⟨rest⟩ } guards [f] := by
  refine h.moved ?_ h.vacant
  intro f'
  rw [hs, List.count_cons, List.count_cons, List.count_nil]
  ring

theorem returned (h : Accounted s guards [f]) (hres : (s.frame f).resident = none)
    (hdirty : (s.frame f).dirty = false) : Accounted (s.returned f) guards [] := by
  apply h.moved
  · intro f'
    rw [List.count_cons, List.count_cons, List.count_nil]
    ring
  · intro f' hf'
    rcases List.mem_cons.mp hf' with rfl | hf'
    · exact ⟨hres, hdirty⟩
    · exact h.vacant f' hf'

theorem queued (h : Accounted s guards [f]) : Accounted (s.queued f) guards [] := by
  refine h.moved ?_ h.vacant
  intro f'
  have honce := h.once f
  rw [List.count_singleton_self] at honce
  have hout : s.lru.order.count f = 0 := by omega
  rw [List.erase_of_not_mem (List.count_eq_zero.mp hout), List.count_append, List.count_nil]
  ring

theorem unqueued (h : Accounted s guards []) (hf : f ∈ s.lru.order) :
    Accounted (s.unqueued f) guards [f] := by
  refine h.moved ?_ h.vacant
  intro f'
  have hperm := (List.perm_cons_erase hf).count_eq f'
  rw [List.count_cons] at hperm
  rw [List.count_cons, List.count_nil, hperm]
  ring

/-! ### Changing a part -/

theorem withDisk (h : Accounted s guards hand) (disk : Disk) :
    Accounted { s with disk } guards hand :=
  ⟨h.pins, h.once, h.held, h.vacant, h.tabled⟩

theorem forgotten (h : Accounted s guards hand) (id : PageId) :
    Accounted (s.forgotten id) guards hand :=
  ⟨h.pins, h.once, h.held, h.vacant, fun e he => h.tabled e ((List.mem_filter.mp he).1)⟩

theorem recorded (h : Accounted s guards hand) {id : PageId}
    (hres : (s.frame f).resident = some id) : Accounted (s.recorded id f) guards hand := by
  refine ⟨h.pins, h.once, h.held, h.vacant, ?_⟩
  intro e he
  rcases List.mem_cons.mp he with rfl | he
  · exact hres
  · exact h.tabled e ((List.mem_filter.mp he).1)

theorem setAt (h : Accounted s guards hand) {x : Frame} (hpins : x.pins = (s.frame f).pins)
    (hres : x.resident = (s.frame f).resident) (hdirty : f ∈ s.free → x.dirty = false) :
    Accounted (s.setAt f x) guards hand where
  pins f' := by
    rw [field_setAt s f Frame.pins hpins]
    exact h.pins f'
  once f' := by
    rw [field_setAt s f Frame.pins hpins]
    exact h.once f'
  held g hg := by
    rw [field_setAt s f Frame.resident hres]
    exact h.held g hg
  vacant f' hf' := by
    rw [field_setAt s f Frame.resident hres, frame_setAt]
    refine ⟨(h.vacant f' hf').1, ?_⟩
    split
    · next hff => exact hdirty (hff ▸ hf')
    · exact (h.vacant f' hf').2
  tabled e he := by
    rw [field_setAt s f Frame.resident hres]
    exact h.tabled e he

/-- A frame in hand that the table does not point at takes another page, or none. -/
theorem setPage (h : Accounted s guards hand) (hf : f ∈ hand) (htable : ∀ e ∈ s.table, e.2 ≠ f)
    {x : Frame} (hpins : x.pins = (s.frame f).pins) : Accounted (s.setAt f x) guards hand where
  pins f' := by
    rw [field_setAt s f Frame.pins hpins]
    exact h.pins f'
  once f' := by
    rw [field_setAt s f Frame.pins hpins]
    exact h.once f'
  held g hg := by
    have hne : g.frame ≠ f := h.pins_eq_zero.mp (h.unpinned (.inr (.inr hf))) g hg
    rw [frame_setAt_ne _ _ _ hne]
    exact h.held g hg
  vacant f' hf' := by
    have hne : f' ≠ f := fun he => h.not_mem_free (.inl hf) (he ▸ hf')
    rw [frame_setAt_ne _ _ _ hne]
    exact h.vacant f' hf'
  tabled e he := by
    rw [frame_setAt_ne _ _ _ (htable e he)]
    exact h.tabled e he

theorem written (h : Accounted s guards hand) (f : Fin n) (id : PageId) :
    Accounted (s.written f id) guards hand :=
  (h.setAt (x := { s.frame f with dirty := false }) rfl rfl fun _ => rfl).withDisk _

theorem emptied (h : Accounted s guards hand) (hf : f ∈ hand) (htable : ∀ e ∈ s.table, e.2 ≠ f) :
    Accounted (s.emptied f) guards hand :=
  h.setPage hf htable rfl

/-! ### Pinning -/

/-- A frame that is pinned already, or in hand, takes one more guard. -/
theorem pinned (h : Accounted s guards (if (s.frame f).pins = 0 then [f] else []))
    {id : PageId} (hres : (s.frame f).resident = some id) (hover : (s.frame f).pins + 1 ≠ 0)
    (access : Access) :
    Accounted (s.setAt f { s.frame f with pins := (s.frame f).pins + 1 })
      (⟨f, id, access⟩ :: guards) [] := by
  have hfree := h.not_mem_free (.inr (by rw [hres]; simp))
  constructor
  · intro f'
    rw [holds, List.countP_cons, frame_setAt]
    by_cases hf : f' = f
    · subst hf
      simp [toNat_add_one hover, h.pins, holds]
    · simp [hf, Ne.symm hf, h.pins, holds]
  · intro f'
    have honce := h.once f'
    rw [frame_setAt]
    by_cases hf : f' = f
    · subst hf
      simp only [if_true, if_neg hover, List.count_nil]
      by_cases hzero : (s.frame f').pins = 0
      · simp only [if_pos hzero, List.count_singleton_self] at honce
        exact honce
      · simp only [if_neg hzero, List.count_nil] at honce
        exact honce
    · have hhand : (if (s.frame f).pins = 0 then [f] else []).count f' = 0 := by
        split <;> simp [Ne.symm hf]
      rw [hhand] at honce
      rw [if_neg hf, List.count_nil]
      exact honce
  · intro g hg
    apply (field_setAt s f Frame.resident (by rfl) _).trans
    rcases List.mem_cons.mp hg with rfl | hg
    · exact hres
    · exact h.held g hg
  · intro f' hf'
    have hne : f' ≠ f := fun he => hfree (he ▸ hf')
    rw [frame_setAt_ne _ _ _ hne]
    exact h.vacant f' hf'
  · intro e he
    exact (field_setAt s f Frame.resident (by rfl) _).trans (h.tabled e he)

theorem repinned (h : Accounted s guards []) {id : PageId}
    (hres : (s.frame f).resident = some id) (hover : (s.frame f).pins + 1 ≠ 0)
    (access : Access) : Accounted (s.repinned f) (⟨f, id, access⟩ :: guards) [] := by
  by_cases hzero : (s.frame f).pins = 0
  · have hout := h.unqueued (h.mem_order (by simp [hres]) hzero)
    rw [← if_pos (c := (s.frame f).pins = 0) (t := [f]) (e := []) hzero] at hout
    exact Accounted.pinned (s := s.unqueued f) hout hres hover access
  · rw [← if_neg (c := (s.frame f).pins = 0) (t := [f]) (e := []) hzero] at h
    unfold Pool.repinned
    rw [unqueued_eq_self]
    · exact h.pinned hres hover access
    · exact h.not_mem_order hzero

theorem occupied (h : Accounted s guards [f]) (hres : (s.frame f).resident = none) (id : PageId)
    (p : Page) (access : Access) :
    Accounted (s.occupied f id p) (⟨f, id, access⟩ :: guards) [] := by
  have hzero := h.unpinned (f := f) (.inr (.inr List.mem_cons_self))
  let x : Frame := ⟨p, some id, 0, (s.frame f).dirty⟩
  have hframe : (s.setAt f x).frame f = x := frame_setAt_self s f x
  have hpage : Accounted (s.setAt f x) guards [f] :=
    h.setPage List.mem_cons_self (h.not_tabled hres) hzero.symm
  have hhand : [f] = if ((s.setAt f x).frame f).pins = 0 then [f] else [] := by
    rw [hframe, if_pos rfl]
  rw [hhand] at hpage
  have hres' : ((s.setAt f x).frame f).resident = some id := congrArg Frame.resident hframe
  have hover : ((s.setAt f x).frame f).pins + 1 ≠ 0 := by
    rw [hframe]
    exact (by decide : (0 : UInt32) + 1 ≠ 0)
  have hpin := hpage.pinned hres' hover access
  rw [hframe, setAt_setAt] at hpin
  exact hpin.recorded (by rw [frame_setAt_self])

/-- A guard is dropped; the frame of the last one is in hand. -/
theorem unpinnedBy (h : Accounted s guards []) {g : Guard n} (hg : g ∈ guards) (w : Bool) :
    Accounted (s.unpinned g.frame w) (guards.erase g)
      (if (s.frame g.frame).pins - 1 = 0 then [g.frame] else []) := by
  have hpins := h.pins_ne_zero hg
  have hfree := h.not_mem_free (f := g.frame) (.inr (by rw [h.held g hg]; simp))
  constructor
  · intro f'
    have hcount := (List.perm_cons_erase hg).countP_eq fun g' => decide (g'.frame = f')
    rw [List.countP_cons] at hcount
    unfold Pool.unpinned
    rw [frame_setAt]
    by_cases hf : f' = g.frame
    · subst hf
      simp only [if_true, decide_true] at hcount ⊢
      rw [toNat_sub_one hpins, h.pins, holds, hcount, holds]
      omega
    · have hf' : ¬ g.frame = f' := fun he => hf he.symm
      simp only [decide_eq_true_eq, if_neg hf', if_neg hf] at hcount ⊢
      rw [h.pins, holds, hcount, holds]
      omega
  · intro f'
    have honce := h.once f'
    unfold Pool.unpinned
    rw [frame_setAt]
    by_cases hf : f' = g.frame
    · subst hf
      rw [if_neg hpins] at honce
      simp only [if_true]
      by_cases hzero : (s.frame g.frame).pins - 1 = 0
      · rw [if_pos hzero, if_pos hzero, List.count_singleton_self]
        exact honce
      · rw [if_neg hzero, if_neg hzero]
        exact honce
    · have hhand : (if (s.frame g.frame).pins - 1 = 0 then [g.frame] else []).count f' = 0 := by
        split <;> simp [Ne.symm hf]
      rw [hhand, if_neg hf]
      exact honce
  · intro g' hg'
    exact (field_setAt s g.frame Frame.resident (by rfl) _).trans
      (h.held g' (List.mem_of_mem_erase hg'))
  · intro f' hf'
    have hne : f' ≠ g.frame := fun he => hfree (he ▸ hf')
    unfold Pool.unpinned
    rw [frame_setAt_ne _ _ _ hne]
    exact h.vacant f' hf'
  · intro e he
    exact (field_setAt s g.frame Frame.resident (by rfl) _).trans (h.tabled e he)

end Accounted

/-! ### Calls keep the accounts -/

section Calls

variable {s : Pool n} {guards : List (Guard n)} {hand : List (Fin n)} {f : Fin n} {id : PageId}
  {L : Prop}

theorem writeBack_accounted (h : Accounted s guards hand) :
    (writeBack f id).Ends s
      (fun _ s' => Accounted s' guards hand ∧ s'.table = s.table ∧
        ∀ g, (s'.frame g).resident = (s.frame g).resident)
      fun c s' => (∃ e, c = .refused e) ∧ ∃ disk, s' = { s with disk } :=
  writeBack_ends (fun _ => ⟨h, rfl, fun _ => rfl⟩)
    (fun _ _ => ⟨h.written f id, rfl, field_setAt s f Frame.resident (by rfl)⟩)
    (fun e _ _ => ⟨⟨e, rfl⟩, s.disk, rfl⟩) fun _ _ _ _ => ⟨⟨_, rfl⟩, _, rfl⟩

/-- The frame of an evicted page comes into the hand empty. -/
theorem vacate_accounted (h : Accounted s guards [f]) :
    (vacate f).Ends s
      (fun _ s' => Accounted s' guards [f] ∧ (s'.frame f).resident = none ∧
        (s'.frame f).dirty = false) (Kept (Accounted · guards []) L) := by
  apply vacate_ends
  · intro hres
    refine ⟨h.emptied List.mem_cons_self (h.not_tabled hres), ?_, ?_⟩ <;>
      rw [emptied, frame_setAt_self]
  · intro old hres
    apply (writeBack_accounted h).mono
    · rintro _ s' ⟨h', -, hsame⟩
      have hgone : ∀ e ∈ (s'.forgotten old).table, e.2 ≠ f := by
        rintro e he rfl
        obtain ⟨he, hne⟩ := List.mem_filter.mp he
        have hpage := h'.tabled e he
        rw [hsame, hres, Option.some.injEq] at hpage
        simp [hpage] at hne
      refine ⟨(h'.forgotten old).emptied List.mem_cons_self hgone, ?_, ?_⟩ <;>
        rw [emptied, frame_setAt_self]
    · rintro c s' ⟨⟨e, rfl⟩, disk, rfl⟩
      exact (h.withDisk disk).queued

theorem acquire_accounted (h : Accounted s guards []) :
    acquire.Ends s
      (fun f s' => Accounted s' guards [f] ∧ (s'.frame f).resident = none ∧
        (s'.frame f).dirty = false) (Kept (Accounted · guards []) L) := by
  refine acquire_ends ?_ ?_ fun _ _ => h
  · intro f rest hs
    exact ⟨h.takeFree hs, h.vacant f (hs ▸ List.mem_cons_self)⟩
  · intro f rest _ hs
    exact (vacate_accounted (h.takeOldest hs)).mono (fun _ _ h' => h') fun _ _ h' => h'

theorem fetch_accounted (h : Accounted s guards []) (access : Access)
    (hL : ∀ f, s.frameOf? id = some f → (s.frame f).pins + 1 = 0 → L) :
    (fetch id access).Ends s (fun g s' => Accounted s' (g :: guards) [])
      (Kept (Accounted · guards []) L) := by
  refine fetch_ends (pinPage_ends (fun _ => h) ?_ ?_ ?_)
  · intro f _ ht hpins
    exact h.repinned (h.tabled _ (mem_of_frameOf? ht)) hpins access
  · intro f s' _ ht hpins
    exact hL f ht hpins
  · intro _ _
    refine (acquire_accounted h).mono ?_ fun _ _ he => he
    rintro f s' ⟨h', hres, hdirty⟩
    exact ⟨h'.unpinned (.inr (.inr List.mem_cons_self)),
      fun p _ => h'.occupied hres id p access, fun e _ => h'.returned hres hdirty⟩

theorem newPage_accounted (h : Accounted s guards [])
    (hL : s.disk.free = [] → ¬ (⟨s.disk.pageCount⟩ : PageId).isValid → L) :
    newPage.Ends s (fun g s' => Accounted s' (g :: guards) [])
      (Kept (Accounted · guards []) L) := by
  refine newPage_ends (((acquire_accounted h).and acquire_disk).mono ?_ fun _ _ he => he.1)
  rintro f s' ⟨⟨h', hres, hdirty⟩, hfree, hcount⟩
  refine ⟨h'.unpinned (.inr (.inr List.mem_cons_self)), ?_, ?_, ?_, ?_⟩
  · intro id rest _
    exact (h'.withDisk (s'.disk.reused id rest)).occupied hres id Page.zero .write
  · intro _ _
    exact (h'.withDisk s'.disk.grown).occupied hres ⟨s'.disk.pageCount⟩ Page.zero .write
  · intro hnone hid _
    rw [hfree] at hnone
    rw [hcount] at hid
    exact hL hnone hid
  · intro b d _ _
    exact (h'.withDisk d).returned hres hdirty

/-! A new page and a page to be read in need a frame; nothing else is refused for want of one. -/

theorem newPage_exhausted (h : Accounted s guards []) :
    newPage.Ends s (fun _ _ => ¬ s.Exhausted)
      fun c _ => c = .refused .noFreeFrames ↔ s.Exhausted := by
  refine newPage_ends (((acquire_accounted (L := True) h).and acquire_exhausted).mono ?_
    fun _ _ he => he.2)
  rintro f s' ⟨⟨h', -⟩, hsome⟩
  refine ⟨h'.unpinned (.inr (.inr List.mem_cons_self)), fun _ _ _ => hsome, fun _ _ => hsome,
    fun _ _ _ => ?_, fun _ _ _ _ => ?_⟩ <;>
    exact ⟨nofun, fun hs => absurd hs hsome⟩

theorem fetch_exhausted (h : Accounted s guards []) {access : Access} (hid : id.isValid)
    (hmiss : s.frameOf? id = none) :
    (fetch id access).Ends s (fun _ _ => ¬ s.Exhausted)
      fun c _ => c = .refused .noFreeFrames ↔ s.Exhausted := by
  refine fetch_ends (pinPage_miss hid hmiss ?_)
  refine ((acquire_accounted (L := True) h).and acquire_exhausted).mono ?_ fun _ _ he => he.2
  rintro f s' ⟨⟨h', -⟩, hsome⟩
  refine ⟨h'.unpinned (.inr (.inr List.mem_cons_self)), fun _ _ => hsome, ?_⟩
  intro e he
  refine ⟨fun hc => ?_, fun hs => absurd hs hsome⟩
  rw [Stop.refused.inj hc] at he
  exact absurd he (Disk.read_ne_noFreeFrames s'.disk id)

theorem release_accounted (h : Accounted s guards []) {g : Guard n} (hg : g ∈ guards) :
    (release g).Ends s (fun _ s' => Accounted s' (guards.erase g) []) fun _ _ => False := by
  have hout := h.unpinnedBy hg (g.access = .write)
  apply release_ends (h.pins_ne_zero hg)
  · intro hlast
    rw [if_pos hlast] at hout
    exact hout.queued
  · intro hmore
    rw [if_neg hmore] at hout
    exact hout

theorem update_accounted (h : Accounted s guards []) (g : Guard n) (p : Page) :
    (update g p).Ends s (fun _ s' => Accounted s' guards []) fun _ _ => False :=
  update_ends (h.setAt rfl rfl fun hf => (h.vacant _ hf).2)

theorem deletePage_accounted (h : Accounted s guards []) :
    (deletePage id).Ends s (fun _ s' => Accounted s' guards [])
      (Kept (Accounted · guards []) L) := by
  have hdisk : ∀ {s' : Pool n}, Accounted s' guards [] →
      (onDisk ((Disk.deallocate id).mapCause Stop.refused)).Ends s'
        (fun _ s' => Accounted s' guards []) (Kept (Accounted · guards []) L) := fun h' =>
    deallocate_ends (fun _ _ _ => h') (fun _ _ => h') (fun _ _ => h'.withDisk _)
      fun _ _ _ => h'.withDisk _
  refine deletePage_ends (fun _ _ _ => h) ?_ fun _ => hdisk h
  intro f ht hpins
  apply hdisk
  have hpage := h.tabled _ (mem_of_frameOf? ht)
  have hout := (h.forgotten id).unqueued (h.mem_order (by rw [hpage]; simp) hpins)
  have hgone : ∀ e ∈ (s.forgotten id).table, e.2 ≠ f := by
    rintro e he rfl
    obtain ⟨he, hne⟩ := List.mem_filter.mp he
    rw [h.tabled e he, Option.some.injEq] at hpage
    simp [hpage] at hne
  refine (hout.emptied List.mem_cons_self hgone).returned ?_ ?_ <;> rw [emptied, frame_setAt_self]

theorem flushEntries_accounted (h : Accounted s guards []) (entries : List (PageId × Fin n)) :
    (flushEntries entries).Ends s (fun _ s' => Accounted s' guards [])
      (Kept (Accounted · guards []) L) := by
  apply flushEntries_ends h
  intro e _ s' h'
  refine (writeBack_accounted h').mono (fun _ _ hw => hw.1) ?_
  rintro c s'' ⟨⟨e, rfl⟩, disk, rfl⟩
  exact h'.withDisk disk

theorem flushPage_accounted (h : Accounted s guards []) :
    (flushPage id).Ends s (fun _ s' => Accounted s' guards [])
      (Kept (Accounted · guards []) L) := by
  refine flushPage_ends (fun _ => h) ?_
  intro f _
  refine (writeBack_accounted h).mono (fun _ _ hw => hw.1) ?_
  rintro c s' ⟨⟨e, rfl⟩, disk, rfl⟩
  exact h.withDisk disk

end Calls

/-! ### Runs -/

/-- The event asks for more than the machine can count: another page of a file with all
identifiers in use, or another pin on a frame with all of them. -/
def Event.AtLimit (t : Session n) : Event n → Prop
  | newPage => t.pool.disk.free = [] ∧ t.pool.disk.pageCount = PageId.invalid.val
  | fetch id _ => ∃ f, t.pool.frameOf? id = some f ∧ (t.pool.frame f).pins + 1 = 0
  | _ => False

theorem Event.accounted {t : Session n} {e : Event n} (h : Accounted t.pool t.guards [])
    (he : e.Offered t) :
    e.task.Ends t.pool (fun o s => Accounted s (o.toList ++ e.kept t.guards) [])
      (Kept (Accounted · t.guards []) (e.AtLimit t)) := by
  cases e with
  | newPage =>
      refine ends_map.mpr (newPage_accounted h fun hfree hid => ⟨hfree, ?_⟩)
      simpa [PageId.isValid, PageId.ext_iff] using hid
  | fetch id access => exact ends_map.mpr (fetch_accounted h access fun f ht hp => ⟨f, ht, hp⟩)
  | deletePage id => exact ends_map.mpr (deletePage_accounted h)
  | flushPage id => exact ends_map.mpr (flushPage_accounted h)
  | flushAll order => exact ends_map.mpr (flushEntries_accounted h order)
  | release g =>
      exact ends_map.mpr ((release_accounted h he).mono (fun _ _ h' => h') fun _ _ => False.elim)
  | update g p =>
      exact ends_map.mpr ((update_accounted h g p).mono (fun _ _ h' => h') fun _ _ => False.elim)
  | tamper file => exact h.withDisk _

theorem Step.accounted {t u : Session n} {e : Event n} {o : Outcome n}
    (h : Accounted t.pool t.guards []) (hs : Step t e o u) : Accounted u.pool u.guards [] := by
  cases hs with
  | answered he hx => exact (e.accounted h he).of_ok hx
  | refused he hx => exact (e.accounted h he).of_error hx

theorem ofDisk_accounted {disk : Disk} {s : Pool n} (h : Pool.ofDisk n disk = .ok s) :
    Accounted s [] [] := by
  obtain ⟨hframe, htable, hfree, hlru, -⟩ := ofDisk_parts h
  refine ⟨?_, ?_, nofun, ?_, ?_⟩
  · intro f
    rw [hframe]
    rfl
  · intro f
    have hone := List.count_eq_one_of_mem (List.nodup_finRange n) (List.mem_finRange f)
    rw [hframe, hfree, hlru, hone]
    rfl
  · intro f _
    rw [hframe]
    exact ⟨rfl, rfl⟩
  · rw [htable]
    nofun

theorem Run.accounted_all {t u : Session n} {h : List (Entry n)}
    (ht : Accounted t.pool t.guards []) (hrun : Run t h u) :
    (∀ x ∈ h, Accounted x.before.pool x.before.guards []) ∧ Accounted u.pool u.guards [] :=
  hrun.invariant (I := fun t => Accounted t.pool t.guards []) (P := fun _ => True) ht
    (fun _ _ _ ht hs => hs.accounted ht) fun _ _ => trivial

theorem Run.accounted {disk : Disk} {s : Pool n} {h : List (Entry n)} {t : Session n}
    (hs : Pool.ofDisk n disk = .ok s) (hrun : Run ⟨s, []⟩ h t) :
    Accounted t.pool t.guards [] := (hrun.accounted_all (ofDisk_accounted hs)).2

/-- In every session of a run, whatever its device gives up, the pin counters count the guards,
every frame is free, a candidate for eviction or pinned, and in one of these ways only and once, and
the page of a guard is in the guard's frame.  So a guard can always be dropped, a frame is refused
exactly when all are pinned, and nothing but a limit of the machine breaks a call. -/
theorem Run.frame_accounting {disk : Disk} {s : Pool n} {h : List (Entry n)} {t : Session n}
    (hs : Pool.ofDisk n disk = .ok s) (hrun : Run ⟨s, []⟩ h t) :
    (∀ f, (t.pool.frame f).pins.toNat = (t.guards.filter fun g => g.frame = f).length) ∧
    (∀ f, t.pool.free.count f + t.pool.lru.order.count f +
      (if ∃ g ∈ t.guards, g.frame = f then 1 else 0) = 1) ∧
    (∀ g ∈ t.guards, (t.pool.frame g.frame).resident = some g.page) ∧
    (∀ g ∈ t.guards, ∃ s', release g t.pool = .ok () s') ∧
    ((∃ s', newPage t.pool = .error (.refused .noFreeFrames) s') ↔
      ∀ f, ∃ g ∈ t.guards, g.frame = f) ∧
    (∀ (id : PageId) (access : Access), id.isValid → t.pool.frameOf? id = none →
      ((∃ s', fetch id access t.pool = .error (.refused .noFreeFrames) s') ↔
        ∀ f, ∃ g ∈ t.guards, g.frame = f)) ∧
    ∀ (e : Event n) (c : Fault) (s' : Pool n), e.Offered t →
      e.task t.pool = .error (.broken c) s' → e.AtLimit t := by
  have hacc := hrun.accounted hs
  refine ⟨?_, ?_, hacc.held, ?_, ?_, ?_, ?_⟩
  · intro f
    rw [hacc.pins, holds, List.countP_eq_length_filter]
  · intro f
    have honce := hacc.once f
    by_cases hzero : (t.pool.frame f).pins = 0
    · have hno : ¬ ∃ g ∈ t.guards, g.frame = f := fun ⟨g, hg, hgf⟩ =>
        hacc.pins_eq_zero.mp hzero g hg hgf
      rw [if_neg hno]
      simpa [hzero] using honce
    · have hsome : ∃ g ∈ t.guards, g.frame = f := by
        by_contra hno
        exact hzero (hacc.pins_eq_zero.mpr fun g hg hgf => hno ⟨g, hg, hgf⟩)
      rw [if_pos hsome]
      simpa [hzero] using honce
  · intro g hg
    obtain ⟨_, s', hs', -⟩ := (release_accounted hacc hg).answers
    exact ⟨s', hs'⟩
  · rw [(newPage_exhausted hacc).stops_iff, hacc.exhausted_iff]
  · intro id access hid hmiss
    rw [(fetch_exhausted hacc hid hmiss).stops_iff, hacc.exhausted_iff]
  · intro e c s' he hbroken
    exact (e.accounted hacc he).of_error hbroken

/-- A pool of one frame, whose only guard keeps every other page out. -/
theorem newPage_full_one :
    ∃ s t : Pool 1, Pool.ofDisk 1 ⟨.empty, 0, [], []⟩ = .ok s ∧
      Run ⟨s, []⟩ [⟨⟨s, []⟩, .newPage, .ok (some ⟨0, ⟨0⟩, .write⟩)⟩] ⟨t, [⟨0, ⟨0⟩, .write⟩]⟩ ∧
      ∃ s', newPage t = .error (.refused .noFreeFrames) s' := by
  let s : Pool 1 := ⟨Vector.replicate 1 Frame.empty, [], [0], Lru.empty, ⟨.empty, 0, [], []⟩⟩
  have hs : Pool.ofDisk 1 ⟨.empty, 0, [], []⟩ = .ok s := rfl
  have hrun := Run.step (.start (t := ⟨s, []⟩)) (.answered (e := .newPage) trivial rfl)
  refine ⟨s, _, hs, hrun, ?_⟩
  have hfull := (Run.frame_accounting hs hrun).2.2.2.2.1
  refine hfull.mpr fun f => ⟨⟨0, ⟨0⟩, .write⟩, List.mem_cons_self, ?_⟩
  exact Subsingleton.elim _ _

/-- A frame that was taken for a new page is free again when the device gives up on the page. -/
example :
    let full : Breakdown := ⟨.other "No space left on device (os error 28)", 0⟩
    let s : Pool 1 := ⟨#v[Frame.empty], [], [0], ⟨[]⟩, ⟨.empty, 0, [], [some full]⟩⟩
    let t : Pool 1 := ⟨#v[Frame.empty], [], [0], ⟨[]⟩, ⟨.empty, 0, [], []⟩⟩
    newPage s = .error (.refused (.file full.cause)) t := rfl

end PagedIndex.Pool
