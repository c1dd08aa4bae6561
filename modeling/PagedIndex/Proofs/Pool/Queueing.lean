import PagedIndex.Key.Integer
import PagedIndex.Pool.Nodes
import PagedIndex.Proofs.Node.Edits
import PagedIndex.Proofs.Pool.Sharing

/-! # Queueing the children of a node

A visit queues a read guard on each child of a node, and every fetch may evict a page that an
earlier one, or the caller, has found in memory.  As a run of the pool the visit is a row of fetches
that are answered (`Fetched`), and perhaps one more that is refused, so the accounts of the pool are
in order behind it: pins are added for the queued guards and for nothing else, and no frame that is
pinned loses its page (`Gained`).  `Run.queues_children` tells from where the visit stops what is
queued and which error is reported, on any node and in every session.

What is said about frames always holds.  What is said about pages, whose pins are counted through
the table, holds where the table and the frames are inverse; a page that is in two frames loses its
entry, and with it its pins, as soon as the older frame is evicted (`queueing_loses_pins`). -/

namespace PagedIndex

open PagedIndex.Action

attribute [local irreducible] Ends

namespace Pool

variable {n : Nat} {s s' u : Pool n} {t : Session n} {guards gs : List (Guard n)}
variable {ids : List PageId} {id : PageId} {access : Access}

/-! ### Pins of pages -/

/-- Pins of a page, none if it is not in memory. -/
def pinCount (s : Pool n) (id : PageId) : Nat := ((s.pins? id).getD 0).toNat

theorem Accounted.pinCount_eq (ha : Accounted s guards []) (h : Found s) (id : PageId) :
    s.pinCount id = guards.countP fun g => g.page = id := by
  unfold pinCount pins?
  cases ht : s.frameOf? id with
  | none =>
      refine (List.countP_eq_zero.mpr fun g hg => ?_).symm
      have hpage : g.page ≠ id := fun hpage => h.absent ht g.frame (hpage ▸ ha.held g hg)
      simpa using hpage
  | some f =>
      have hres := ha.tabled _ (mem_of_frameOf? ht)
      refine (ha.pins f).trans (List.countP_congr fun g hg => ?_)
      have hiff : g.frame = f ↔ g.page = id := by
        refine ⟨fun hf => ?_, fun hpage => h.unique (ha.held g hg) (hpage ▸ hres)⟩
        exact Option.some.inj ((ha.held g hg).symm.trans (hf ▸ hres))
      simp only [hiff]

/-! ### Fetching in a row -/

/-- Read guards on the pages of a list, fetched one after another. -/
inductive Fetched : Pool n → List PageId → List (Guard n) → Pool n → Prop
  | done {s : Pool n} : Fetched s [] [] s
  | next {s s' u : Pool n} {id : PageId} {g : Guard n} {ids : List PageId} {gs : List (Guard n)} :
      fetch id .read s = .ok g s' → Fetched s' ids gs u → Fetched s (id :: ids) (g :: gs) u

theorem fetch_guard {g : Guard n} (h : fetch id access s = .ok g s') :
    g.page = id ∧ g.access = access := by
  have hends : (fetch id access).Ends s (fun g _ => g.page = id ∧ g.access = access)
      fun _ _ => True :=
    fetch_ends (ends_iff.mpr ⟨fun _ _ _ => ⟨rfl, rfl⟩, fun _ _ _ => trivial⟩)
  exact hends.of_ok h

namespace Fetched

theorem pages (h : Fetched s ids gs u) : gs.map Guard.page = ids := by
  induction h with
  | done => rfl
  | next hfetch _ ih => rw [List.map_cons, ih, (fetch_guard hfetch).1]

theorem reads (h : Fetched s ids gs u) : ∀ g ∈ gs, g.access = .read := by
  induction h with
  | done => nofun
  | next hfetch _ ih => exact List.forall_mem_cons.mpr ⟨(fetch_guard hfetch).2, ih⟩

theorem run (h : Fetched s ids gs u) (guards : List (Guard n)) :
    ∃ es, Run ⟨s, guards⟩ es ⟨u, gs.reverse ++ guards⟩ ∧ ∀ x ∈ es, x.event ≠ .newPage := by
  induction h generalizing guards with
  | done => exact ⟨[], .start, List.forall_mem_nil _⟩
  | @next s s' u id g ids gs hfetch _ ih =>
      obtain ⟨es, hrun, hes⟩ := ih (g :: guards)
      have hstep : Step ⟨s, guards⟩ (.fetch id .read) (.ok (some g)) ⟨s', g :: guards⟩ :=
        .answered trivial (by simp [Event.task, Functor.map, EStateM.map, hfetch])
      rw [List.reverse_cons, List.append_assoc]
      refine ⟨_, (Run.step .start hstep).trans hrun, ?_⟩
      rw [List.nil_append, List.singleton_append, List.forall_mem_cons]
      exact ⟨by simp, hes⟩

theorem accounted (h : Fetched s ids gs u) (ha : Accounted s guards []) :
    Accounted u (gs.reverse ++ guards) [] := by
  obtain ⟨es, hrun, -⟩ := h.run guards
  exact (hrun.accounted_all (t := ⟨s, guards⟩) ha).2

theorem found (h : Fetched s ids gs u) (ha : Accounted s guards []) (hf : Found s) : Found u := by
  obtain ⟨es, hrun, hes⟩ := h.run guards
  have hunshared : ∀ x ∈ es, x.Unshared := fun x hx g hnew => absurd hnew (hes x hx)
  exact ((hrun.found_iff (t := ⟨s, guards⟩) ha hf).mpr hunshared).2

end Fetched

theorem fetch_full (ha : Accounted s guards []) :
    (fetch id access).Ends s
      (fun _ _ => ¬(id.isValid ∧ s.frameOf? id = none ∧ ∀ f, (s.frame f).pins ≠ 0))
      fun c _ => c = .refused .noFreeFrames ↔
        id.isValid ∧ s.frameOf? id = none ∧ ∀ f, (s.frame f).pins ≠ 0 := by
  by_cases hmiss : id.isValid ∧ s.frameOf? id = none
  · obtain ⟨hid, ht⟩ := hmiss
    refine (fetch_exhausted ha hid ht).mono (fun _ _ hroom h => ?_) fun c _ hc => ?_
    · exact hroom (ha.exhausted_iff_pinned.mpr h.2.2)
    · rw [hc, ha.exhausted_iff_pinned]
      exact ⟨fun h => ⟨hid, ht, h⟩, fun h => h.2.2⟩
  · have hno : ¬(id.isValid ∧ s.frameOf? id = none ∧ ∀ f, (s.frame f).pins ≠ 0) :=
      fun h => hmiss ⟨h.1, h.2.1⟩
    refine fetch_ends (pinPage_ends (fun _ => ?_) (fun _ _ _ _ => hno) (fun _ _ _ _ _ => ?_)
      fun hid ht => absurd ⟨hid, ht⟩ hmiss)
    · exact ⟨nofun, fun h => absurd h hno⟩
    · exact ⟨nofun, fun h => absurd h hno⟩

/-- Guards have been added to a session, and nothing that was pinned has lost its place. -/
structure Gained (t : Session n) (gs : List (Guard n)) (u : Pool n) : Prop where
  pins : ∀ f, (u.frame f).pins.toNat = (t.pool.frame f).pins.toNat + holds gs f
  held : ∀ g ∈ gs ++ t.guards, (u.frame g.frame).resident = some g.page
  counts : Inverse t.pool → ∀ id, u.pinCount id = t.pool.pinCount id + (gs.map Guard.page).count id
  kept : Inverse t.pool → ∀ id f, t.pool.frameOf? id = some f → (t.pool.frame f).pins ≠ 0 →
    u.frameOf? id = some f

theorem Accounted.gained (ha : Accounted t.pool t.guards [])
    (hu : Accounted u (gs.reverse ++ t.guards) []) (hf : Found t.pool → Found u) :
    Gained t gs u where
  pins f := by
    rw [hu.pins, ha.pins, holds, List.countP_append, List.countP_reverse, Nat.add_comm]
    rfl
  held g hg := hu.held g (by simpa using hg)
  counts hi id := by
    have hfound := ha.inverse_iff_found.mp hi
    rw [hu.pinCount_eq (hf hfound), ha.pinCount_eq hfound, List.countP_append, List.countP_reverse,
      Nat.add_comm, List.count, List.countP_map]
    exact congrArg _ (List.countP_congr fun g _ => by simp)
  kept hi id f ht hpins := by
    have hfound := ha.inverse_iff_found.mp hi
    obtain ⟨g, hg, rfl⟩ : ∃ g ∈ t.guards, g.frame = f := by
      by_contra hno
      exact hpins (ha.pins_eq_zero.mpr fun g hg hgf => hno ⟨g, hg, hgf⟩)
    have hpage : g.page = id :=
      Option.some.inj ((ha.held g hg).symm.trans (ha.tabled _ (mem_of_frameOf? ht)))
    exact hf hfound g.frame id (hpage ▸ hu.held g (List.mem_append_right _ hg))

/-- A fetch that finds no frame is reported with the page, and nothing else is reported so. -/
theorem FetchStop.forPage_eq_iff {c : Stop} {x : PageId} (h : FetchStop id c) :
    c.forPage id = .refused (.pageUnavailable x) ↔ x = id ∧ c = .refused .noFreeFrames := by
  have hother : ∀ e : Error, e ≠ .noFreeFrames → e ≠ .pageUnavailable x →
      ((Stop.refused e).forPage id = .refused (.pageUnavailable x) ↔
        x = id ∧ Stop.refused e = .refused .noFreeFrames) := by
    intro e hfull hnamed
    cases e <;> simp_all [Stop.forPage, Error.unavailable]
  cases h with
  | limit => exact ⟨nofun, nofun⟩
  | invalid => exact hother _ nofun nofun
  | full => simp [Stop.forPage, Error.unavailable, eq_comm]
  | unwritten old =>
      unfold Disk.refusal
      split <;> exact hother _ nofun nofun
  | torn cause => exact hother _ nofun nofun
  | unread he =>
      simp only [List.mem_cons, List.not_mem_nil, or_false] at he
      rcases he with rfl | rfl | rfl <;> exact hother _ nofun nofun

/-- Where a row of fetches is stopped: the pool has gained the guards of the pages before. -/
theorem Fetched.stopped {w : Pool n} {c : Stop} (h : Fetched t.pool ids gs w)
    (ha : Accounted t.pool t.guards []) (hstop : fetch id .read w = .error c u) :
    (∀ x, c.forPage id = .refused (.pageUnavailable x) ↔
      x = id ∧ x.isValid ∧ w.frameOf? x = none ∧ ∀ f, (w.frame f).pins ≠ 0) ∧
    (∀ e, c.forPage id = .refused e → Gained t gs u) ∧
    ∀ b, c.forPage id = .broken b → ∃ f, w.frameOf? id = some f ∧ (w.frame f).pins + 1 = 0 := by
  have hw := h.accounted ha
  have hkept := Ends.of_error (fetch_accounted hw .read
    (L := ∃ f, w.frameOf? id = some f ∧ (w.frame f).pins + 1 = 0)
    fun f ht hpins => ⟨f, ht, hpins⟩) hstop
  refine ⟨fun x => ?_, fun e he => ?_, fun b hb => ?_⟩
  · rw [(fetch_stops.of_error hstop).forPage_eq_iff, (fetch_full hw).of_error hstop]
    exact and_congr_right fun hx => by rw [hx]
  · cases c with
    | broken b => cases he
    | refused e =>
        exact ha.gained hkept fun hf => (fetch_found hw (h.found ha hf) .read).of_error hstop
  · cases c with
    | broken b => exact hkept
    | refused e => cases hb

end Pool

namespace Visit

open Pool

variable {n : Nat} {K : Type} [Key K] {v : Node K} {s s' u w : Pool n} {g : Guard n}
variable {gs : List (Guard n)} {c : Stop} {i j count : Nat}

/-- The children of a row of slots are fetched in order, up to the first that cannot be had. -/
theorem queueSlots_fetches : ∀ (i : Nat) (r : Visit n), i + count ≤ Node.capacity K →
    (queueSlots v i count).Ends r
      (fun _ r' => ∃ gs, r'.queue = r.queue ++ gs ∧
        Fetched r.pool ((List.range' i count).map v.child) gs r'.pool)
      fun c r' => ∃ j < count, ∃ gs w c', r'.queue = r.queue ++ gs ∧
        Fetched r.pool ((List.range' i j).map v.child) gs w ∧
        fetch (v.child (i + j)) .read w = .error c' r'.pool ∧
        c = c'.forPage (v.child (i + j)) := by
  induction count with
  | zero => exact fun i r _ => (ends_pure ()).mpr ⟨[], (List.append_nil _).symm, .done⟩
  | succ count ih =>
      intro i r hin
      simp only [queueSlots, Node.readChild_eq v (show i < Node.capacity K by omega), onPool,
        needing, ends_bind, ends_zoom, ends_mapCause, ends_modify]
      refine ends_iff.mpr ⟨fun g p hfetch => ?_, fun c p hfetch => ?_⟩
      · refine (ih (i + 1) ⟨p, r.queue ++ [g]⟩ (by omega)).mono ?_ ?_
        · rintro _ r' ⟨gs, hqueue, hrest⟩
          refine ⟨g :: gs, by rw [hqueue, List.append_assoc]; rfl, ?_⟩
          rw [List.range'_succ, List.map_cons]
          exact .next hfetch hrest
        · rintro c r' ⟨j, hj, gs, w, c', hqueue, hrest, hstop, hcause⟩
          rw [Nat.add_right_comm, Nat.add_assoc] at hstop hcause
          refine ⟨j + 1, by omega, g :: gs, w, c', by rw [hqueue, List.append_assoc]; rfl, ?_,
            hstop, hcause⟩
          rw [List.range'_succ, List.map_cons]
          exact .next hfetch hrest
      · exact ⟨0, by omega, [], r.pool, c, (List.append_nil _).symm, .done, hfetch, rfl⟩

theorem queueSlots_ok (hi : i < Node.capacity K) (h : fetch (v.child i) .read s = .ok g s')
    (q : List (Guard n)) :
    queueSlots v i (count + 1) ⟨s, q⟩ = queueSlots v (i + 1) count ⟨s', q ++ [g]⟩ := by
  simp only [queueSlots, Node.readChild_eq v hi, onPool, needing, zoom, mapCause, bind,
    EStateM.bind, h]
  rfl

theorem queueSlots_error (hi : i < Node.capacity K) (h : fetch (v.child i) .read s = .error c u)
    (q : List (Guard n)) :
    queueSlots v i (count + 1) ⟨s, q⟩ = .error (c.forPage (v.child i)) ⟨u, q⟩ := by
  simp only [queueSlots, Node.readChild_eq v hi, onPool, needing, zoom, mapCause, bind,
    EStateM.bind, h]

theorem queueSlots_stopped (hin : i + count ≤ Node.capacity K) (hj : j < count)
    (h : Fetched s ((List.range' i j).map v.child) gs w)
    (hstop : fetch (v.child (i + j)) .read w = .error c u) (q : List (Guard n)) :
    queueSlots v i count ⟨s, q⟩ = .error (c.forPage (v.child (i + j))) ⟨u, q ++ gs⟩ := by
  induction j generalizing i count s gs q with
  | zero =>
      cases h
      obtain ⟨count, rfl⟩ := Nat.exists_eq_succ_of_ne_zero (Nat.ne_of_gt hj)
      rw [List.append_nil]
      exact queueSlots_error (by omega) hstop q
  | succ j ih =>
      obtain ⟨count, rfl⟩ := Nat.exists_eq_succ_of_ne_zero (show count ≠ 0 by omega)
      rw [List.range'_succ, List.map_cons] at h
      rw [← Nat.add_assoc, Nat.add_right_comm] at hstop ⊢
      cases h with
      | next hfetch hrest =>
          rw [queueSlots_ok (by omega) hfetch, ih (by omega) (by omega) hrest hstop,
            List.append_assoc]
          rfl

theorem children_take (hi : i ≤ v.size) :
    (List.range' 0 i).map v.child = (v.slots.map Prod.snd).take i := by
  rw [Node.slots_def, List.map_map, ← List.map_take, List.take_range, Nat.min_eq_left hi,
    List.range_eq_range']
  rfl

/-- A visit fetches the children in the order of the slots. -/
theorem queueChildren_fetches (hv : v.size ≤ Node.capacity K) (r : Visit n) :
    (queueChildren v).Ends r
      (fun _ r' => ∃ gs, r'.queue = r.queue ++ gs ∧
        Fetched r.pool (v.slots.map Prod.snd) gs r'.pool)
      fun c r' => ∃ i < v.size, ∃ gs w c', r'.queue = r.queue ++ gs ∧
        Fetched r.pool ((v.slots.map Prod.snd).take i) gs w ∧
        fetch (v.child i) .read w = .error c' r'.pool ∧ c = c'.forPage (v.child i) := by
  refine (queueSlots_fetches 0 r (by omega)).mono ?_ ?_
  · rintro _ r' ⟨gs, hqueue, hfetched⟩
    rw [children_take (Nat.le_refl _), List.take_of_length_le (by simp)] at hfetched
    exact ⟨gs, hqueue, hfetched⟩
  · rintro c r' ⟨i, hi, gs, w, c', hqueue, hfetched, hstop, hcause⟩
    rw [children_take (Nat.le_of_lt hi)] at hfetched
    rw [Nat.zero_add] at hstop hcause
    exact ⟨i, hi, gs, w, c', hqueue, hfetched, hstop, hcause⟩

theorem queueChildren_stopped (hv : v.size ≤ Node.capacity K) (hi : i < v.size)
    (h : Fetched s ((v.slots.map Prod.snd).take i) gs w)
    (hstop : fetch (v.child i) .read w = .error c u) (q : List (Guard n)) :
    queueChildren v ⟨s, q⟩ = .error (c.forPage (v.child i)) ⟨u, q ++ gs⟩ := by
  rw [← children_take (Nat.le_of_lt hi)] at h
  rw [← Nat.zero_add i] at hstop ⊢
  exact queueSlots_stopped (by omega) hi h hstop q

end Visit

namespace Pool

variable {n : Nat} {K : Type} [Key K]

/-- A visit queues read guards on the children of a node in the order of the slots.  Either all of
them are queued, or the first that cannot be had stops it: then its error is that of the fetch, and
a child that is unavailable is one that is not in memory while every frame is pinned.  Pins are
added for the queued guards only, and no pinned frame loses its page; nor does a pinned page lose
its frame where the table and the frames are inverse, as they are if no new page was shared. -/
theorem Run.queues_children {disk : Disk} {s : Pool n} {h : List (Entry n)} {t : Session n}
    (hs : Pool.ofDisk n disk = .ok s) (hrun : Run ⟨s, []⟩ h t) {v : Node K}
    (hv : v.size ≤ Node.capacity K) (q : List (Guard n)) :
    ((∀ x ∈ h, x.Unshared) → Inverse t.pool) ∧
    (∀ r, Visit.queueChildren v ⟨t.pool, q⟩ = .ok () r →
      ∃ gs, r.queue = q ++ gs ∧ gs.map Guard.page = v.slots.map Prod.snd ∧
        (∀ g ∈ gs, g.access = .read) ∧ Gained t gs r.pool) ∧
    ∀ c r, Visit.queueChildren v ⟨t.pool, q⟩ = .error c r →
      ∃ i < v.size, ∃ gs w c', r.queue = q ++ gs ∧
        gs.map Guard.page = (v.slots.map Prod.snd).take i ∧ (∀ g ∈ gs, g.access = .read) ∧
        Fetched t.pool ((v.slots.map Prod.snd).take i) gs w ∧
        fetch (v.child i) .read w = .error c' r.pool ∧ c = c'.forPage (v.child i) ∧
        (∀ id, c = .refused (.pageUnavailable id) ↔
          id = v.child i ∧ id.isValid ∧ w.frameOf? id = none ∧ ∀ f, (w.frame f).pins ≠ 0) ∧
        (∀ e, c = .refused e → Gained t gs r.pool) ∧
        ∀ b, c = .broken b → ∃ f, w.frameOf? (v.child i) = some f ∧ (w.frame f).pins + 1 = 0 := by
  have ha := hrun.accounted hs
  have hends := Visit.queueChildren_fetches hv ⟨t.pool, q⟩
  refine ⟨fun hunshared => ?_, fun r hok => ?_, fun c r herror => ?_⟩
  · exact ha.inverse_iff_found.mpr
      ((hrun.found_iff (ofDisk_accounted hs) (ofDisk_found hs)).mpr hunshared).2
  · obtain ⟨gs, hqueue, hfetched⟩ := hends.of_ok hok
    exact ⟨gs, hqueue, hfetched.pages, hfetched.reads,
      ha.gained (hfetched.accounted ha) (hfetched.found ha)⟩
  · obtain ⟨i, hi, gs, w, c', hqueue, hfetched, hstop, rfl⟩ := hends.of_error herror
    exact ⟨i, hi, gs, w, c', hqueue, hfetched.pages, hfetched.reads, hfetched, hstop, rfl,
      hfetched.stopped ha hstop⟩

/-- One frame, and a node that names the page in it twice and another one then: the page is pinned
twice, and the other one is unavailable. -/
theorem queues_children_three :
    ∃ (s : Pool 1) (t : Session 1) (h : List (Entry 1)) (v : Node UInt32) (r : Visit 1),
      Pool.ofDisk 1 ⟨.empty, 0, [], []⟩ = .ok s ∧ Run ⟨s, []⟩ h t ∧
        v.size ≤ Node.capacity UInt32 ∧ v.slots.map Prod.snd = [⟨0⟩, ⟨0⟩, ⟨1⟩] ∧
        Visit.queueChildren v ⟨t.pool, []⟩ = .error (.refused (.pageUnavailable ⟨1⟩)) r ∧
        r.queue.map Guard.page = [⟨0⟩, ⟨0⟩] ∧ r.pool.pinCount ⟨0⟩ = 2 := by
  let a : Guard 1 := ⟨0, ⟨0⟩, .write⟩
  let g : Guard 1 := ⟨0, ⟨0⟩, .read⟩
  let disk : Disk := ⟨File.empty.writePage 0 Page.zero, 1, [], []⟩
  let s : Pool 1 := ⟨#v[⟨Page.zero, none, 0, false⟩], [], [0], ⟨[]⟩, ⟨.empty, 0, [], []⟩⟩
  let s₁ : Pool 1 := ⟨#v[⟨Page.zero, some ⟨0⟩, 1, false⟩], [(⟨0⟩, 0)], [], ⟨[]⟩, disk⟩
  let s₂ : Pool 1 := ⟨#v[⟨Page.zero, some ⟨0⟩, 0, true⟩], [(⟨0⟩, 0)], [], ⟨[0]⟩, disk⟩
  let s₃ : Pool 1 := ⟨#v[⟨Page.zero, some ⟨0⟩, 1, true⟩], [(⟨0⟩, 0)], [], ⟨[]⟩, disk⟩
  let s₄ : Pool 1 := ⟨#v[⟨Page.zero, some ⟨0⟩, 2, true⟩], [(⟨0⟩, 0)], [], ⟨[]⟩, disk⟩
  let v : Node UInt32 := Node.ofSlots ⟨7⟩ ⟨8⟩ 3 [(0, ⟨0⟩), (10, ⟨0⟩), (20, ⟨1⟩)]
  have h₁ : Step ⟨s, []⟩ .newPage (.ok (some a)) ⟨s₁, [a]⟩ := .answered trivial rfl
  have h₂ : Step ⟨s₁, [a]⟩ (.release a) (.ok none) ⟨s₂, []⟩ :=
    .answered List.mem_cons_self (by with_unfolding_all rfl)
  have hrun := Run.step (.step .start h₁) h₂
  have hunshared : ∀ x ∈ ([⟨⟨s, []⟩, .newPage, .ok (some a)⟩, ⟨⟨s₁, [a]⟩, .release a, .ok none⟩] :
      List (Entry 1)), x.Unshared := fun _ _ _ _ _ _ _ => Subsingleton.elim _ _
  have hs : Pool.ofDisk 1 ⟨.empty, 0, [], []⟩ = .ok s := rfl
  have hx₃ : fetch ⟨0⟩ .read s₂ = .ok g s₃ := by with_unfolding_all rfl
  have hx₄ : fetch ⟨0⟩ .read s₃ = .ok g s₄ := by with_unfolding_all rfl
  have hx₅ : fetch ⟨1⟩ .read s₄ = .error (.refused .noFreeFrames) s₄ := by with_unfolding_all rfl
  have hslots : v.slots = [(0, ⟨0⟩), (10, ⟨0⟩), (20, ⟨1⟩)] :=
    (Node.ofSlots_eq _ _ _ _ (by decide) (by decide)).1
  have hsize : v.size = 3 := Node.size_of_slots hslots
  have hv : v.size ≤ Node.capacity UInt32 := by rw [hsize]; decide
  have hchildren : v.slots.map Prod.snd = [⟨0⟩, ⟨0⟩, ⟨1⟩] := by rw [hslots]; rfl
  have hslot : v.slot 2 = (20, ⟨1⟩) := Node.slot_at (a := [(0, ⟨0⟩), (10, ⟨0⟩)]) hslots
  obtain ⟨-, hchild⟩ := Prod.mk.inj hslot
  have hfetched : Fetched s₂ ((v.slots.map Prod.snd).take 2) [g, g] s₄ := by
    rw [hchildren]
    exact .next hx₃ (.next hx₄ .done)
  have hend := Visit.queueChildren_stopped hv (by omega) hfetched (hchild.symm ▸ hx₅) []
  rw [hchild] at hend
  obtain ⟨hinverse, -, hstop⟩ := Run.queues_children hs hrun hv []
  obtain ⟨i, hi, gs, w, c', hqueue, -, -, -, -, -, -, hgained, -⟩ := hstop _ _ hend
  obtain rfl : [g, g] = gs := hqueue
  have hpins := (hgained _ rfl).counts (hinverse hunshared) ⟨0⟩
  exact ⟨s, ⟨s₂, []⟩, _, v, _, hs, hrun, hv, hchildren, hend, rfl, hpins⟩

/-- A page in two frames, of which the older one is evicted for a child of the node: the child is
not on disk, and the guard of the newer frame pins the page no more. -/
theorem queueing_loses_pins :
    ∃ (d₁ d : Disk) (s : Pool 2) (t : Session 2) (h : List (Entry 2)) (v : Node UInt32)
      (r : Visit 2),
      Disk.allocate ⟨.empty, 0, [], []⟩ = .ok ⟨0⟩ d₁ ∧ Disk.deallocate ⟨0⟩ d₁ = .ok () d ∧
        Pool.ofDisk 2 d = .ok s ∧ Run ⟨s, []⟩ h t ∧ t.guards = [⟨1, ⟨0⟩, .write⟩] ∧
        t.pool.pinCount ⟨0⟩ = 1 ∧ v.Sound ∧ v.slots.map Prod.snd = [⟨5⟩] ∧
        Visit.queueChildren v ⟨t.pool, []⟩ = .error (.refused (.pageNotFound ⟨5⟩)) r ∧
        r.pool.pinCount ⟨0⟩ = 0 := by
  let file : File := File.empty.writePage 0 Page.zero
  let d : Disk := Disk.put ⟨file, 1, [⟨0⟩], []⟩ ⟨0⟩ Page.tombstone
  let s : Pool 2 := ⟨#v[Frame.empty, Frame.empty], [], [0, 1], ⟨[]⟩, d⟩
  let v : Node UInt32 := Node.ofSlots ⟨7⟩ ⟨8⟩ 3 [(0, ⟨5⟩)]
  have hs : Pool.ofDisk 2 d = .ok s := rfl
  have hholds : Disk.Holds ⟨file, 1, [⟨0⟩], []⟩ ⟨0⟩ := ⟨rfl, by decide⟩
  have hsound : Disk.Sound ⟨file, 1, [⟨0⟩], []⟩ :=
    ⟨List.nodup_singleton _, List.forall_mem_singleton.mpr hholds, Nat.le_max_right _ _⟩
  obtain ⟨p, hread⟩ : ∃ p, d.read ⟨0⟩ = .ok p := ⟨_, Disk.read_put hsound hholds⟩
  obtain ⟨u, h₁, h₂⟩ := run_twice (ofDisk_accounted hs) rfl (f := 0) (g := 1) rfl rfl hread rfl
  let b : Frame := ⟨Page.zero, some ⟨0⟩, 1, false⟩
  let d' : Disk := d.reused ⟨0⟩ []
  let s₃ : Pool 2 := ⟨#v[⟨p, some ⟨0⟩, 0, false⟩, b], [(⟨0⟩, 1)], [], ⟨[0]⟩, d'⟩
  let s₄ : Pool 2 := ⟨#v[⟨p, none, 0, false⟩, b], [], [0], ⟨[]⟩, d'⟩
  have h₃ : Step ⟨s.twice 0 1 [] ⟨0⟩ [] p, [⟨1, ⟨0⟩, .write⟩, ⟨0, ⟨0⟩, .read⟩]⟩
      (.release ⟨0, ⟨0⟩, .read⟩) (.ok none) ⟨s₃, [⟨1, ⟨0⟩, .write⟩]⟩ :=
    .answered (.tail _ (.head _)) (by with_unfolding_all rfl)
  have hx : fetch ⟨5⟩ .read s₃ = .error (.refused (.pageNotFound ⟨5⟩)) s₄ := by
    with_unfolding_all rfl
  have hslots : v.slots = [(0, ⟨5⟩)] := (Node.ofSlots_eq _ _ _ _ (by decide) (by decide)).1
  have hv : v.Sound := Node.ofSlots_sound _ _ _ _ (by decide) (by decide)
  have hsize : v.size = 1 := Node.size_of_slots hslots
  have hchildren : v.slots.map Prod.snd = [⟨5⟩] := by rw [hslots]; rfl
  have hslot : v.slot 0 = (0, ⟨5⟩) := Node.slot_at (a := []) hslots
  obtain ⟨-, hchild⟩ := Prod.mk.inj hslot
  have hend := Visit.queueChildren_stopped hv.size_le_capacity (by omega) .done
    (hchild.symm ▸ hx) []
  rw [hchild] at hend
  exact ⟨⟨file, 1, [], []⟩, d, s, ⟨s₃, [⟨1, ⟨0⟩, .write⟩]⟩, _, v, _, rfl, by with_unfolding_all rfl,
    hs, .step (.step (.step .start h₁) h₂) h₃, rfl, rfl, hv, hchildren, hend, rfl⟩

end Pool

end PagedIndex
