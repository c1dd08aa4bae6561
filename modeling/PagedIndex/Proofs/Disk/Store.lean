import Mathlib.Logic.Function.Basic
import PagedIndex.Proofs.Disk.Run

/-! # A store of pages

What the users of a store have stored is a map from identifiers to pages, and it can be told from
their calls (`pages`).  `Stores` says that a store represents such a map: it has a page where the
map has one, it reads that page back, and its file is as long as its pages.  Whatever the event, a
store that represents a map represents the map after the event, closed and opened again or not;
so a store never loses a page, and it refuses nothing but identifiers that name none. -/

namespace PagedIndex.Disk

open PagedIndex.Action

/-- Pages by identifier. -/
abbrev Pages := PageId → Option Page

/-- The page that an event is about: the one it names, or the one it hands out. -/
def Entry.subject (x : Entry) : Option PageId :=
  match x.event, x.outcome with
  | .allocate, .ok (.page id) => some id
  | e, _ => e.target

/-- The pages after an event.  A page that is released again is not written again. -/
def Entry.pages (m : Pages) (x : Entry) : Pages :=
  match x.event, x.outcome with
  | .allocate, .ok (.page id) => Function.update m id (some Page.zero)
  | .write id p, .ok _ => Function.update m id (some p.stamped)
  | .deallocate id, .ok _ =>
      if id ∈ x.before.free then m else Function.update m id (some Page.tombstone.stamped)
  | _, _ => m

/-- The pages that a run leaves behind, starting from an empty file. -/
def pages (h : List Entry) : Pages := h.foldl Entry.pages fun _ => none

theorem Entry.pages_of_ne {m : Pages} {x : Entry} {id : PageId} (h : x.subject ≠ some id) :
    Entry.pages m x id = m id := by
  have hother : ∀ {id' : PageId} {p : Page}, some id' ≠ some id →
      Function.update m id' (some p) id = m id := fun hne =>
    Function.update_of_ne (fun he => hne (congrArg some he.symm)) _ _
  obtain ⟨d, e, o⟩ := x
  simp only [Entry.pages]
  split
  · exact hother h
  · exact hother h
  · split
    · rfl
    · exact hother h
  · rfl

/-- The store represents the pages. -/
structure Stores (d : Disk) (m : Pages) : Prop where
  sound : d.Sound
  exact : d.Exact
  held : ∀ id, m id ≠ none ↔ d.Holds id
  stored : ∀ id p, m id = some p → d.image id = p ∧ p.intact = true

namespace Stores

variable {d d' : Disk} {m : Pages} {id : PageId} {p : Page}

theorem read_eq (h : Stores d m) (id : PageId) :
    d.read id = (m id).elim (.error (refusal id)) .ok := by
  cases hp : m id with
  | none => exact read_refused fun hid => (h.held id).mpr hid hp
  | some p =>
      obtain ⟨rfl, hin⟩ := h.stored id p hp
      exact read_image h.sound ((h.held id).mp (by simp [hp])) hin

theorem changed (h : Stores d m) (hsound : d'.Sound) (hexact : d'.Exact) (hin : p.intact = true)
    (hheld : ∀ other, d'.Holds other ↔ other = id ∨ d.Holds other)
    (himage : ∀ other, d'.image other = if other = id then p else d.image other) :
    Stores d' (Function.update m id (some p)) := by
  refine ⟨hsound, hexact, ?_, ?_⟩
  · intro other
    rw [hheld]
    by_cases ho : other = id
    · simp [ho]
    · rw [Function.update_of_ne ho, h.held other]
      exact (or_iff_right ho).symm
  · intro other q hq
    rw [himage]
    by_cases ho : other = id
    · rw [ho, Function.update_self, Option.some.injEq] at hq
      rw [if_pos ho, ← hq]
      exact ⟨rfl, hin⟩
    · rw [Function.update_of_ne ho] at hq
      rw [if_neg ho]
      exact h.stored other q hq

theorem overwritten (h : Stores d m) (hid : d.Holds id) (hsound : d'.Sound) (hexact : d'.Exact)
    (hin : p.intact = true) (hcount : d'.pageCount = d.pageCount)
    (himage : ∀ other, d'.image other = if other = id then p else d.image other) :
    Stores d' (Function.update m id (some p)) := by
  refine h.changed hsound hexact hin (fun other => ?_) himage
  have hsame : d'.Holds other ↔ d.Holds other := by
    unfold Holds
    rw [hcount]
  exact hsame.trans (or_iff_right_of_imp fun ho => ho ▸ hid).symm

theorem reopened (h : Stores d m) : Stores d.reopened m :=
  ⟨.reopened h.exact, h.exact, h.held, h.stored⟩

end Stores

section Runs

variable {d d' : Disk} {m : Pages} {e : Event} {o : Outcome}

theorem image_put (d : Disk) (id : PageId) (p : Page) (other : PageId) :
    (d.put id p).image other = if other = id then p.stamped else d.image other := by
  split
  · next ho => rw [ho, image_put_self]
  · next ho => rw [image_put_ne ho]

theorem Effect.stores (h : Stores d m) (he : Effect d e o d') :
    Stores d' (Entry.pages m ⟨d, e, o⟩) := by
  cases he with
  | @reused id rest hfree =>
      have hid := h.sound.listed id (hfree ▸ List.mem_cons_self)
      exact h.overwritten hid (h.sound.reused hfree) (h.exact.reused hid) Page.intact_zero rfl
        fun _ => image_reused
  | grown hfree hvalid =>
      exact h.changed (h.sound.grown hfree hvalid) (h.exact.grown hvalid) Page.intact_zero
        (fun _ => holds_grown hvalid) fun _ => image_grown
  | @released id hid =>
      have hpages : Entry.pages m ⟨d, .deallocate id, .ok .done⟩ =
          Function.update m id (some Page.tombstone.stamped) := if_neg hid.2
      rw [hpages]
      exact h.overwritten hid.1 (h.sound.released hid) (h.exact.released hid.1)
        (Page.intact_stamped _) rfl (image_put d id _)
  | @spared id hid hfree =>
      have hpages : Entry.pages m ⟨d, .deallocate id, .ok .done⟩ = m := if_pos hfree
      rwa [hpages]
  | @written id p hid =>
      exact h.overwritten hid h.sound.put (h.exact.put hid p) (Page.intact_stamped p) rfl
        (image_put d id p)
  | shown hp => exact h
  | opened =>
      have hfile : ofFile d.file = d.reopened := Except.ok.inj (openExisting_file h.exact)
      rw [hfile]
      exact h.reopened
  | @refused _ id htarget hid =>
      have hpages : Entry.pages m ⟨d, e, .error (refusal id)⟩ = m := by cases e <;> rfl
      rwa [hpages]
  | damaged hid hp => exact h

/-- A page is never found damaged. -/
theorem Stores.read_ok (h : Stores d m) {id : PageId} (hid : d.Holds id) :
    ∃ p, m id = some p ∧ d.read id = .ok p := by
  obtain ⟨p, hp⟩ := Option.ne_none_iff_exists'.mp ((h.held id).mpr hid)
  exact ⟨p, hp, by rw [h.read_eq, hp]; rfl⟩

theorem create_stores (hd : Disk.create none = .ok d) : Stores d fun _ => none := by
  have hm := create_marked hd
  obtain rfl : d = ⟨.empty, 0, [], []⟩ := (Except.ok.inj hd).symm
  refine ⟨hm.sound, hm.exact, fun id => ?_, nofun⟩
  exact ⟨fun hno => absurd rfl hno, fun hid => absurd hid.2 UInt32.not_lt_zero⟩

theorem Run.stores {d₀ : Disk} {h : List Entry} (hd : Disk.create none = .ok d₀)
    (hrun : Run d₀ h d) : Stores d (pages h) := by
  induction hrun with
  | start => exact create_stores hd
  | @step h u v e o hrun hs ih =>
      have hpages : pages (h ++ [⟨u, e, o⟩]) = Entry.pages (pages h) ⟨u, e, o⟩ :=
        List.foldl_append
      rw [hpages]
      exact (hrun.effect (create_reliable hd) hs).stores ih

/-- An identifier that names no page is refused, and nothing changes. -/
theorem Event.task_refused (hr : d.Reliable) {id : PageId} (htarget : e.target = some id)
    (hid : ¬ d.Holds id) : e.task d = .error (.refused (refusal id)) d := by
  have heffect := e.effect hr
  unfold Ends at heffect
  cases hx : e.task d with
  | ok a d' =>
      rw [hx] at heffect
      simp only at heffect
      cases heffect with
      | reused hfree => cases htarget
      | grown hfree hvalid => cases htarget
      | released hlive => cases htarget; exact absurd hlive.1 hid
      | spared hholds hfree => cases htarget; exact absurd hholds hid
      | written hholds => cases htarget; exact absurd hholds hid
      | shown hp => cases htarget; exact absurd (holds_of_read hp) hid
      | opened => cases htarget
  | error c d' =>
      rw [hx] at heffect
      cases c with
      | broken c =>
          obtain ⟨rfl, -⟩ := heffect
          cases htarget
      | refused c =>
          simp only at heffect
          cases heffect with
          | refused htarget' hid' =>
              obtain rfl := Option.some.inj (htarget.symm.trans htarget')
              rfl
          | damaged hholds hp => cases htarget; exact absurd hholds hid

/-- Nothing else is refused, and nothing breaks as long as there are identifiers left. -/
theorem Stores.task_ok (h : Stores d m) (hr : d.Reliable)
    (hid : ∀ id, e.target = some id → d.Holds id) (hlimit : ¬ e.AtLimit d) :
    ∃ a d', e.task d = .ok a d' := by
  have heffect := e.effect hr
  unfold Ends at heffect
  cases hx : e.task d with
  | ok a d' => exact ⟨a, d', rfl⟩
  | error c d' =>
      rw [hx] at heffect
      cases c with
      | broken c => exact absurd heffect hlimit
      | refused c =>
          simp only at heffect
          cases heffect with
          | refused htarget hno => exact absurd (hid _ htarget) hno
          | damaged hholds hp =>
              obtain ⟨p, -, hok⟩ := h.read_ok hholds
              rw [hp] at hok
              cases hok

/-- All along a run over a new file the file ends with its last page, a page of the file reads back
as it was stored last, an event changes no page but its own, and an identifier beyond the last page
is refused without a trace.  Nothing else fails while there are identifiers left. -/
theorem Run.faithful_store {d₀ : Disk} {h : List Entry} (hd : Disk.create none = .ok d₀)
    (hrun : Run d₀ h d) :
    d.file.length = d.pageCount.toNat * pageSize ∧
    (∀ id, id.val < d.pageCount → ∃ p, pages h id = some p ∧ d.read id = .ok p) ∧
    (∀ p : Page, p.stamped.Agrees p) ∧
    (∀ (e : Event) (o : Outcome) (d' : Disk), Step d e o d' →
      ∀ id, Entry.subject ⟨d, e, o⟩ ≠ some id → d'.read id = d.read id) ∧
    (∀ (e : Event) (id : PageId), e.target = some id → d.pageCount ≤ id.val →
      e.task d = .error
        (.refused (if id = .invalid then .invalidPageId id else .pageNotFound id)) d) ∧
    ∀ e : Event, (∀ id, e.target = some id → id.val < d.pageCount) →
      d.pageCount.toNat < UInt32.size - 1 → ∃ a d', e.task d = .ok a d' := by
  have hstores := hrun.stores hd
  have hr := hrun.reliable (create_reliable hd)
  refine ⟨hstores.exact, fun id hid => hstores.read_ok (holds_of_lt hid), Page.agrees_stamped,
    ?_, ?_, ?_⟩
  · intro e o d' hs id hne
    rw [((hs.effect hr).stores hstores).read_eq, hstores.read_eq, Entry.pages_of_ne hne]
  · intro e id htarget hcount
    rw [Event.task_refused hr htarget fun hid => UInt32.not_lt.mpr hcount hid.2]
    unfold refusal PageId.isValid
    by_cases hid : id = .invalid <;> simp [hid]
  · intro e htarget hlt
    refine hstores.task_ok hr (fun id hid => holds_of_lt (htarget id hid)) ?_
    rintro ⟨-, -, hcount⟩
    rw [hcount] at hlt
    exact absurd hlt (by decide)

/-- A page that is written and closed away reads back, stamped. -/
theorem reopened_page_one :
    ∃ (d : Disk) (h : List Entry), Run ⟨.empty, 0, [], []⟩ h d ∧
      d.read ⟨0⟩ = .ok (Page.zero.setHeader (PageHeader.fresh .data)).stamped ∧
      Event.task (.read ⟨1⟩) d = .error (.refused (.pageNotFound ⟨1⟩)) d := by
  let p : Page := Page.zero.setHeader (PageHeader.fresh .data)
  let file : File := (File.empty.writePage 0 Page.zero).writePage 0 p.stamped
  have h₁ : Step ⟨.empty, 0, [], []⟩ .allocate (.ok (.page ⟨0⟩))
      ⟨File.empty.writePage 0 Page.zero, 1, [], []⟩ := .answered rfl
  have h₂ : Step ⟨File.empty.writePage 0 Page.zero, 1, [], []⟩ (.write ⟨0⟩ p) (.ok .done)
      ⟨file, 1, [], []⟩ := .answered rfl
  have h₃ : Step ⟨file, 1, [], []⟩ .reopen (.ok .done) (ofFile file) := .answered rfl
  have hrun := Run.step (.step (.step .start h₁) h₂) h₃
  obtain ⟨-, hread, -, -, hrefused, -⟩ := Run.faithful_store rfl hrun
  refine ⟨ofFile file, _, hrun, ?_, hrefused (.read ⟨1⟩) ⟨1⟩ rfl (by decide)⟩
  obtain ⟨q, hq, hok⟩ := hread ⟨0⟩ (by decide)
  rw [hok, ← Option.some.inj hq]

end Runs

end PagedIndex.Disk
