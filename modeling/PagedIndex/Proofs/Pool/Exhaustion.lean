import PagedIndex.Proofs.Node.Contracts
import PagedIndex.Proofs.Pool.Queueing

/-! # A pool with every frame pinned

A pool has no frame to give exactly when every frame is pinned, and the call that asks for one
leaves it as it was.  The index tells this in two ways.  A node that is fetched, on its own or as a
child in a visit, is a page that the pool could not bring in, and it is reported as that page
(`fetchNode_unavailable_iff`, `queueChildren_unavailable_iff`); a new node is no page yet, and it is
refused as the pool refuses a new page (`newNode_full_iff`).  All other causes are those of the
pool.  `Run.reports_exhaustion` collects this for every session. -/

namespace PagedIndex

open PagedIndex.Action

/-! ### Causes on behalf of a page -/

theorem Stop.forPage_ne_noFreeFrames (c : Stop) (id : PageId) :
    c.forPage id ≠ .refused .noFreeFrames := by
  cases c with
  | broken f => nofun
  | refused e => cases e <;> nofun

theorem Stop.forPage_of_ne {c : Stop} (h : c ≠ .refused .noFreeFrames) (id : PageId) :
    c.forPage id = c := by
  cases c with
  | broken f => rfl
  | refused e =>
      cases e with
      | noFreeFrames => exact absurd rfl h
      | _ => rfl

theorem Node.ofPage_error {K : Type} [Key K] {p : Page} {e : Error}
    (h : (Node.ofPage p : Except Error (Node K)) = .error e) :
    e ≠ .noFreeFrames ∧ ∀ id, e ≠ .pageUnavailable id := by
  have heq := Node.ofPage_eq (K := K) ⟨p⟩
  rw [h] at heq
  split at heq
  · split at heq
    · split at heq
      · cases heq
      · obtain rfl := Except.error.inj heq
        exact ⟨nofun, nofun⟩
    · obtain rfl := Except.error.inj heq
      exact ⟨nofun, nofun⟩
  · obtain rfl := Except.error.inj heq
    exact ⟨nofun, nofun⟩

namespace Pool

variable {n : Nat} {s u : Pool n} {guards : List (Guard n)} {id x : PageId} {access : Access}
variable {c : Stop}

/-! ### Calls of the pool -/

/-- A frame is needed for the page, and every frame is pinned. -/
def Starved (s : Pool n) (id : PageId) : Prop :=
  id.isValid ∧ s.frameOf? id = none ∧ ∀ f, (s.frame f).pins ≠ 0

/-- Why a new page is not to be had. -/
theorem newPage_stops (ha : Accounted s guards []) :
    newPage.Ends s (fun _ _ => True) fun c u =>
      c = .refused .noFreeFrames ∧ u = s ∨ (∃ old, c = .refused (Disk.refusal old)) ∨
        (∃ cause, c = .refused (.file cause)) ∨ c = .broken .outOfRange := by
  refine newPage_ends (((acquire_accounted (L := True) ha).and acquire_stops).mono ?_ ?_)
  · rintro f s' ⟨⟨ha', -⟩, -⟩
    have hpins := ha'.unpinned (.inr (.inr List.mem_cons_self))
    exact ⟨hpins, fun _ _ _ => trivial, fun _ _ => trivial, fun _ _ _ => .inr (.inr (.inr rfl)),
      fun b _ _ _ => .inr (.inr (.inl ⟨b.cause, rfl⟩))⟩
  · rintro c s' ⟨-, hfull | hrefused | htorn⟩
    · exact .inl hfull
    · exact .inr (.inl hrefused)
    · exact .inr (.inr (.inl htorn))

theorem fetch_full_unchanged (ha : Accounted s guards []) :
    (fetch id access).Ends s (fun _ _ => True)
      fun c u => c = .refused .noFreeFrames → u = s := by
  refine fetch_ends (pinPage_ends (fun _ _ => rfl) (fun _ _ _ _ => trivial)
    (fun _ _ _ _ _ => nofun) fun _ _ => ?_)
  refine ((acquire_accounted (L := True) ha).and acquire_stops).mono ?_ ?_
  · rintro f s' ⟨⟨ha', -⟩, -⟩
    refine ⟨ha'.unpinned (.inr (.inr List.mem_cons_self)), fun _ _ => trivial, fun e he hc => ?_⟩
    rw [Stop.refused.inj hc] at he
    exact absurd he (Disk.read_ne_noFreeFrames s'.disk id)
  · rintro c s' ⟨-, ⟨-, hsame⟩ | ⟨old, rfl⟩ | ⟨cause, rfl⟩⟩ hc
    · exact hsame
    · exact absurd (Stop.refused.inj hc) (Disk.refusal_ne_noFreeFrames old)
    · cases hc

theorem fetch_full_iff (ha : Accounted s guards []) :
    fetch id access s = .error (.refused .noFreeFrames) u ↔ u = s ∧ s.Starved id :=
  (fetch_full ha).stops_unchanged_iff (fetch_full_unchanged ha)

theorem newPage_full_iff (ha : Accounted s guards []) :
    newPage s = .error (.refused .noFreeFrames) u ↔ u = s ∧ ∀ f, (s.frame f).pins ≠ 0 := by
  rw [← ha.exhausted_iff_pinned]
  refine (newPage_exhausted ha).stops_unchanged_iff ((newPage_stops ha).mono (fun _ _ h => h) ?_)
  rintro c u (⟨-, hsame⟩ | ⟨old, rfl⟩ | ⟨cause, rfl⟩ | rfl) hc
  · exact hsame
  · exact absurd (Stop.refused.inj hc) (Disk.refusal_ne_noFreeFrames old)
  · cases hc
  · cases hc

/-! ### Nodes -/

section Nodes

variable {K : Type} [Key K] {parent : PageId} {maxSize : Option Nat}

theorem fetchNode_of_error (h : fetch id access s = .error c u) :
    fetchNode K id access s = .error (c.forPage id) u := by
  simp only [fetchNode, needing, mapCause, bind, EStateM.bind, h]

/-- A node is not to be had where its page is not, or the page does not open. -/
theorem fetchNode_stops (ha : Accounted s guards []) :
    (fetchNode K id access).Ends s (fun _ _ => True) fun c u =>
      (∃ c', fetch id access s = .error c' u ∧ c = c'.forPage id) ∨
        ∃ e, c = .refused e ∧ e ≠ .noFreeFrames ∧ ∀ x, e ≠ .pageUnavailable x := by
  unfold fetchNode needing
  simp only [ends_bind, ends_mapCause, ends_get]
  refine ends_iff.mpr ⟨fun g s' hfetch => ?_, fun c u hfetch => .inl ⟨c, hfetch, rfl⟩⟩
  have ha' := (fetch_accounted (L := True) ha access fun _ _ _ => trivial).of_ok hfetch
  cases hopen : (Node.ofPage (s'.view g) : Except Error (Node K)) with
  | ok v => trivial
  | error e =>
      simp only [ends_bind, ends_throw]
      exact (release_accounted ha' List.mem_cons_self).mono
        (fun _ _ _ => .inr ⟨e, rfl, Node.ofPage_error hopen⟩) fun _ _ => False.elim

theorem fetchNode_unavailable_iff (ha : Accounted s guards []) :
    fetchNode K id access s = .error (.refused (.pageUnavailable x)) u ↔
      x = id ∧ u = s ∧ s.Starved id := by
  constructor
  · intro hx
    obtain ⟨c, hfetch, hc⟩ | ⟨e, he, -, hother⟩ := (fetchNode_stops ha).of_error hx
    · obtain ⟨rfl, rfl⟩ := (fetch_stops.of_error hfetch).forPage_eq_iff.mp hc.symm
      exact ⟨rfl, (fetch_full_iff ha).mp hfetch⟩
    · exact absurd (Stop.refused.inj he).symm (hother x)
  · rintro ⟨rfl, hfull⟩
    exact fetchNode_of_error ((fetch_full_iff ha).mpr hfull)

theorem fetchNode_ne_full (ha : Accounted s guards []) :
    fetchNode K id access s ≠ .error (.refused .noFreeFrames) u := by
  intro hx
  obtain ⟨c, -, hc⟩ | ⟨e, he, hother, -⟩ := (fetchNode_stops ha).of_error hx
  · exact c.forPage_ne_noFreeFrames id hc.symm
  · exact hother (Stop.refused.inj he).symm

theorem newNode_of_error (h : newPage s = .error c u) :
    newNode K parent maxSize s = .error c u := by
  simp only [newNode, bind, EStateM.bind, h]

theorem newNode_stops (ha : Accounted s guards []) :
    (newNode K parent maxSize).Ends s (fun _ _ => True) fun c u =>
      newPage s = .error c u ∨ ∃ f, c = .broken f := by
  unfold newNode
  simp only [ends_bind, ends_get]
  refine ends_iff.mpr ⟨fun g s' hnew => ?_, fun c u hnew => .inl hnew⟩
  have ha' := (newPage_accounted (L := True) ha fun _ _ => trivial).of_ok hnew
  split
  · simp only [ends_bind, ends_pure]
    exact update_ends trivial
  · simp only [ends_bind, ends_throw]
    exact (release_accounted ha' List.mem_cons_self).mono (fun _ _ _ => .inr ⟨_, rfl⟩)
      fun _ _ => False.elim

/-- What the pool refuses a new page for, a new node is refused for, and for nothing else. -/
theorem newNode_refused_iff (ha : Accounted s guards []) {e : Error} :
    newNode K parent maxSize s = .error (.refused e) u ↔ newPage s = .error (.refused e) u := by
  refine ⟨fun hx => ?_, newNode_of_error⟩
  obtain hnew | ⟨f, hf⟩ := (newNode_stops ha).of_error hx
  · exact hnew
  · cases hf

theorem newNode_full_iff (ha : Accounted s guards []) :
    newNode K parent maxSize s = .error (.refused .noFreeFrames) u ↔
      u = s ∧ ∀ f, (s.frame f).pins ≠ 0 := by
  rw [newNode_refused_iff ha, newPage_full_iff ha]

theorem newNode_ne_unavailable (ha : Accounted s guards []) :
    newNode K parent maxSize s ≠ .error (.refused (.pageUnavailable x)) u := by
  intro hx
  obtain ⟨hc, -⟩ | ⟨old, hc⟩ | ⟨cause, hc⟩ | hc :=
    (newPage_stops ha).of_error ((newNode_refused_iff ha).mp hx)
  · cases hc
  · unfold Disk.refusal at hc
    split at hc <;> cases hc
  · cases hc
  · cases hc

end Nodes

end Pool

/-! ### Visits -/

namespace Visit

open Pool

variable {n : Nat} {K : Type} [Key K] {v : Node K} {s : Pool n} {guards : List (Guard n)}
variable {q : List (Guard n)} {r : Visit n} {x : PageId}

/-- A child is unavailable where the children before it are queued and it needs a frame then. -/
theorem queueChildren_unavailable_iff (hv : v.size ≤ Node.capacity K)
    (ha : Accounted s guards []) :
    queueChildren v ⟨s, q⟩ = .error (.refused (.pageUnavailable x)) r ↔
      ∃ i < v.size, ∃ gs, r.queue = q ++ gs ∧
        Fetched s ((v.slots.map Prod.snd).take i) gs r.pool ∧ x = v.child i ∧
        r.pool.Starved x := by
  constructor
  · intro hx
    obtain ⟨i, hi, gs, w, c, hqueue, hfetched, hstop, hc⟩ :=
      (queueChildren_fetches hv ⟨s, q⟩).of_error hx
    obtain ⟨rfl, rfl⟩ := (fetch_stops.of_error hstop).forPage_eq_iff.mp hc.symm
    obtain ⟨hsame, hstarved⟩ := (fetch_full_iff (hfetched.accounted ha)).mp hstop
    rw [← hsame] at hfetched hstarved
    exact ⟨i, hi, gs, hqueue, hfetched, rfl, hstarved⟩
  · rintro ⟨i, hi, gs, hqueue, hfetched, rfl, hstarved⟩
    have hstop : fetch (v.child i) .read r.pool = .error (.refused .noFreeFrames) r.pool :=
      (fetch_full_iff (hfetched.accounted ha)).mpr ⟨rfl, hstarved⟩
    have hend := queueChildren_stopped hv hi hfetched hstop q
    rwa [← hqueue] at hend

theorem queueChildren_ne_full (hv : v.size ≤ Node.capacity K) :
    queueChildren v ⟨s, q⟩ ≠ .error (.refused .noFreeFrames) r := by
  intro hx
  obtain ⟨i, -, -, -, c, -, -, -, hc⟩ := (queueChildren_fetches hv ⟨s, q⟩).of_error hx
  exact c.forPage_ne_noFreeFrames (v.child i) hc.symm

end Visit

/-! ### Every session -/

namespace Pool

variable {n : Nat}

/-- In every session of a run, and for all arguments: a node that is fetched is never refused for
want of a frame but reported unavailable, exactly when its page is not in memory and every frame is
pinned, and a visit reports the first child that is in this case; a new node is refused for want of
a frame exactly when every frame is pinned, and it is never reported unavailable.  The request that
finds no frame leaves the pool and its file as they were, and every other cause is the pool's
own. -/
theorem Run.reports_exhaustion {disk : Disk} {s : Pool n} {h : List (Entry n)} {t : Session n}
    (hs : Pool.ofDisk n disk = .ok s) (hrun : Run ⟨s, []⟩ h t) (K : Type) [Key K] :
    (∀ id access u,
      (∀ x, fetchNode K id access t.pool = .error (.refused (.pageUnavailable x)) u ↔
        x = id ∧ u = t.pool ∧ t.pool.Starved id) ∧
      fetchNode K id access t.pool ≠ .error (.refused .noFreeFrames) u ∧
      ∀ c, c ≠ .refused .noFreeFrames → fetch id access t.pool = .error c u →
        fetchNode K id access t.pool = .error c u) ∧
    (∀ (v : Node K) q r, v.size ≤ Node.capacity K →
      (∀ x, Visit.queueChildren v ⟨t.pool, q⟩ = .error (.refused (.pageUnavailable x)) r ↔
        ∃ i < v.size, ∃ gs, r.queue = q ++ gs ∧
          Fetched t.pool ((v.slots.map Prod.snd).take i) gs r.pool ∧ x = v.child i ∧
          r.pool.Starved x) ∧
      Visit.queueChildren v ⟨t.pool, q⟩ ≠ .error (.refused .noFreeFrames) r ∧
      ∀ i < v.size, ∀ gs w u c, Fetched t.pool ((v.slots.map Prod.snd).take i) gs w →
        c ≠ .refused .noFreeFrames → fetch (v.child i) .read w = .error c u →
        Visit.queueChildren v ⟨t.pool, q⟩ = .error c ⟨u, q ++ gs⟩) ∧
    ∀ parent maxSize u,
      (newNode K parent maxSize t.pool = .error (.refused .noFreeFrames) u ↔
        u = t.pool ∧ ∀ f, (t.pool.frame f).pins ≠ 0) ∧
      (∀ x, newNode K parent maxSize t.pool ≠ .error (.refused (.pageUnavailable x)) u) ∧
      ∀ e, newNode K parent maxSize t.pool = .error (.refused e) u ↔
        newPage t.pool = .error (.refused e) u := by
  have ha := hrun.accounted hs
  refine ⟨fun id access u => ?_, fun v q r hv => ?_, fun parent maxSize u => ?_⟩
  · refine ⟨fun x => fetchNode_unavailable_iff ha, fetchNode_ne_full ha, fun c hc hfetch => ?_⟩
    rw [fetchNode_of_error hfetch, Stop.forPage_of_ne hc]
  · refine ⟨fun x => Visit.queueChildren_unavailable_iff hv ha, Visit.queueChildren_ne_full hv,
      fun i hi gs w u c hfetched hc hstop => ?_⟩
    rw [Visit.queueChildren_stopped hv hi hfetched hstop q, Stop.forPage_of_ne hc]
  · exact ⟨newNode_full_iff ha, fun x => newNode_ne_unavailable ha,
      fun e => newNode_refused_iff ha⟩

/-- One frame, pinned by a reader of the page in it: another page is unavailable on its own and as
the second child of a node, and a new node finds no frame. -/
theorem reports_exhaustion_one :
    ∃ (s : Pool 1) (t : Session 1) (h : List (Entry 1)) (v : Node UInt32) (r : Visit 1),
      Pool.ofDisk 1 ⟨.empty, 0, [], []⟩ = .ok s ∧ Run ⟨s, []⟩ h t ∧
        v.size ≤ Node.capacity UInt32 ∧ v.slots.map Prod.snd = [⟨0⟩, ⟨1⟩] ∧
        fetchNode UInt32 ⟨1⟩ .write t.pool =
          .error (.refused (.pageUnavailable ⟨1⟩)) t.pool ∧
        Visit.queueChildren v ⟨t.pool, []⟩ = .error (.refused (.pageUnavailable ⟨1⟩)) r ∧
        r.queue.map Guard.page = [⟨0⟩] ∧
        newNode UInt32 ⟨0⟩ none t.pool = .error (.refused .noFreeFrames) t.pool := by
  let a : Guard 1 := ⟨0, ⟨0⟩, .write⟩
  let g : Guard 1 := ⟨0, ⟨0⟩, .read⟩
  let disk : Disk := ⟨File.empty.writePage 0 Page.zero, 1, [], []⟩
  let s : Pool 1 := ⟨#v[⟨Page.zero, none, 0, false⟩], [], [0], ⟨[]⟩, ⟨.empty, 0, [], []⟩⟩
  let s₁ : Pool 1 := ⟨#v[⟨Page.zero, some ⟨0⟩, 1, false⟩], [(⟨0⟩, 0)], [], ⟨[]⟩, disk⟩
  let s₂ : Pool 1 := ⟨#v[⟨Page.zero, some ⟨0⟩, 0, true⟩], [(⟨0⟩, 0)], [], ⟨[0]⟩, disk⟩
  let s₃ : Pool 1 := ⟨#v[⟨Page.zero, some ⟨0⟩, 1, true⟩], [(⟨0⟩, 0)], [], ⟨[]⟩, disk⟩
  let s₄ : Pool 1 := ⟨#v[⟨Page.zero, some ⟨0⟩, 2, true⟩], [(⟨0⟩, 0)], [], ⟨[]⟩, disk⟩
  let v : Node UInt32 := Node.ofSlots ⟨7⟩ ⟨8⟩ 3 [(0, ⟨0⟩), (10, ⟨1⟩)]
  have h₁ : Step ⟨s, []⟩ .newPage (.ok (some a)) ⟨s₁, [a]⟩ := .answered trivial rfl
  have h₂ : Step ⟨s₁, [a]⟩ (.release a) (.ok none) ⟨s₂, []⟩ :=
    .answered List.mem_cons_self (by with_unfolding_all rfl)
  have h₃ : Step ⟨s₂, []⟩ (.fetch ⟨0⟩ .read) (.ok (some g)) ⟨s₃, [g]⟩ :=
    .answered trivial (by with_unfolding_all rfl)
  have hrun := Run.step (.step (.step .start h₁) h₂) h₃
  have hs : Pool.ofDisk 1 ⟨.empty, 0, [], []⟩ = .ok s := rfl
  have hpinned : ∀ f, (s₃.frame f).pins ≠ 0 := by decide
  have hx₄ : fetch ⟨0⟩ .read s₃ = .ok g s₄ := by with_unfolding_all rfl
  have hslots : v.slots = [(0, ⟨0⟩), (10, ⟨1⟩)] :=
    (Node.ofSlots_eq _ _ _ _ (by decide) (by decide)).1
  have hsize : v.size = 2 := Node.size_of_slots hslots
  have hv : v.size ≤ Node.capacity UInt32 := by rw [hsize]; decide
  have hchildren : v.slots.map Prod.snd = [⟨0⟩, ⟨1⟩] := by rw [hslots]; rfl
  have hslot : v.slot 1 = (10, ⟨1⟩) := Node.slot_at (a := [(0, ⟨0⟩)]) hslots
  obtain ⟨-, hchild⟩ := Prod.mk.inj hslot
  have hfetched : Fetched s₃ ((v.slots.map Prod.snd).take 1) [g] s₄ := by
    rw [hchildren]
    exact .next hx₄ .done
  obtain ⟨hfetch, hvisit, hnew⟩ := Run.reports_exhaustion hs hrun UInt32
  refine ⟨s, ⟨s₃, [g]⟩, _, v, ⟨s₄, [g]⟩, hs, hrun, hv, hchildren, ?_, ?_, rfl, ?_⟩
  · exact ((hfetch ⟨1⟩ .write s₃).1 ⟨1⟩).mpr ⟨rfl, rfl, rfl, rfl, hpinned⟩
  · refine ((hvisit v [] ⟨s₄, [g]⟩ hv).1 ⟨1⟩).mpr ⟨1, by omega, [g], rfl, hfetched, hchild.symm, ?_⟩
    exact ⟨rfl, rfl, by decide⟩
  · exact (hnew ⟨0⟩ none s₃).1.mpr ⟨rfl, hpinned⟩

/-- One frame, pinned: a new node is refused, and no page is reported unavailable. -/
theorem new_node_names_no_page :
    ∃ s t : Pool 1, Pool.ofDisk 1 ⟨.empty, 0, [], []⟩ = .ok s ∧
      Run ⟨s, []⟩ [⟨⟨s, []⟩, .newPage, .ok (some ⟨0, ⟨0⟩, .write⟩)⟩] ⟨t, [⟨0, ⟨0⟩, .write⟩]⟩ ∧
      (∀ f, (t.frame f).pins ≠ 0) ∧
      newNode UInt32 ⟨0⟩ none t = .error (.refused .noFreeFrames) t ∧
      ¬ ∃ id u, newNode UInt32 ⟨0⟩ none t = .error (.refused (.pageUnavailable id)) u := by
  let s : Pool 1 := ⟨#v[⟨Page.zero, none, 0, false⟩], [], [0], ⟨[]⟩, ⟨.empty, 0, [], []⟩⟩
  let t : Pool 1 := ⟨#v[⟨Page.zero, some ⟨0⟩, 1, false⟩], [(⟨0⟩, 0)], [], ⟨[]⟩,
    ⟨File.empty.writePage 0 Page.zero, 1, [], []⟩⟩
  have hnew : newNode UInt32 ⟨0⟩ none t = .error (.refused .noFreeFrames) t := rfl
  refine ⟨s, t, rfl, .step .start (.answered trivial rfl), by decide, hnew, ?_⟩
  rintro ⟨id, u, hx⟩
  cases hnew.symm.trans hx

end Pool

end PagedIndex
