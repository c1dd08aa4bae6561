import Mathlib.Data.List.Induction
import PagedIndex.Key.Integer
import PagedIndex.Pool.Nodes
import PagedIndex.Proofs.Node.Calls
import PagedIndex.Proofs.Pool.Calls

/-! # Broken contracts

What remains of nodes on which operations are called with any arguments, fitting or not.  A call
that is stopped changes nothing (`Call.stopped_unchanged`).  On nodes that come from a page which
opened, or which was formatted, no call and no traversal ever leaves the page
(`opened_stay_inside`).  Their pages open again as long as no call takes the last slot of a node
(`opened_reopen_iff`); the contracts do not forbid that (`erase_last_slot`). -/

namespace PagedIndex

open PagedIndex.Action

attribute [local irreducible] Ends

/-! ### Traversals -/

/-- The children of a bounded node are queued unless the pool refuses one of them, or a frame has
no room for one more pin. -/
theorem Visit.queueChildren_limited {n : Nat} {K : Type} [Key K] {v : Node K} (hv : v.Bounded)
    (visit : Visit n) :
    (Visit.queueChildren v).Ends visit (fun _ _ => True) fun c _ => c.Limited := by
  have hqueue : ∀ (count i : Nat), i + count ≤ Node.capacity K → ∀ visit : Visit n,
      (Visit.queueSlots v i count).Ends visit (fun _ _ => True) fun c _ => c.Limited := by
    intro count
    induction count with
    | zero => exact fun _ _ _ => (ends_pure ()).mpr trivial
    | succ count ih =>
        intro i hin visit
        simp only [Visit.queueSlots, Node.readChild_eq v (show i < Node.capacity K by omega),
          Visit.onPool, Pool.needing, ends_bind, ends_zoom, ends_mapCause, ends_modify]
        refine Pool.fetch_limited.mono (fun _ _ _ => ih _ (by omega) _) fun c _ hc => ?_
        cases c with
        | refused e => trivial
        | broken f => exact hc
  exact hqueue v.size 0 (by rw [Nat.zero_add]; exact hv.size_le_capacity) visit

namespace Node

open Function Nodes

section Opening

variable {K : Type} [Key K] {v w : Node K}

/-! ### Opened nodes -/

/-- A node that comes from a page which opens, or which was formatted. -/
inductive Opened : Node K → Prop
  | ofPage {p : Page} {v : Node K} : Node.ofPage p = .ok v → Opened v
  | format {p : Page} {pageId parentId : PageId} {maxSize : Nat} {v : Node K} :
      Node.format p pageId parentId maxSize = .ok v → Opened v

theorem ofPage_eq (v : Node K) :
    ofPage v.page =
      if v.page.kind = .inner then
        if 2 ≤ v.maxSize ∧ v.maxSize < capacity K then
          if 1 ≤ v.size ∧ v.size ≤ v.maxSize + 1 then .ok v
          else .error (.corrupted v.pageId (.sizeOutside v.size (v.maxSize + 1)))
        else .error (.corrupted v.pageId (.maxSizeOutside v.maxSize (capacity K)))
      else .error (.wrongKind v.pageId .inner v.page.kind) := by
  simp only [ofPage, require_bind]
  rfl

theorem ofPage_sound {p : Page} (h : ofPage p = .ok v) : v.page.kind = .inner ∧ v.Sound := by
  have heq := ofPage_eq (K := K) ⟨p⟩
  rw [h] at heq
  split at heq
  · next hkind =>
      split at heq
      · next hmax =>
          split at heq
          · next hsize =>
              cases heq
              exact ⟨hkind, hmax.1, hmax.2, hsize.1, hsize.2⟩
          · cases heq
      · cases heq
  · cases heq

theorem format_sound {p : Page} {pageId parentId : PageId} {maxSize : Nat}
    (h : format p pageId parentId maxSize = .ok v) : v.page.kind = .inner ∧ v.Sound := by
  by_cases hmax : 2 ≤ maxSize ∧ maxSize < capacity K
  · obtain ⟨w, hw, hsound, _⟩ := format_eq p pageId parentId hmax
    obtain rfl : w = v := Except.ok.inj (hw.symm.trans h)
    refine ⟨?_, hsound⟩
    simp only [format, require_bind, if_pos hmax] at h
    obtain rfl := Except.ok.inj h
    have hstart : 0 < slotStart K 0 := Nat.lt_of_lt_of_le (by decide) (nodeStart_le 0)
    have hchild : 0 < childStart K 0 := Nat.lt_of_lt_of_le hstart (Nat.le_add_right _ _)
    simp only [Page.kind, NodeHeader.store, Buffer.setU32, Buffer.byte_write_of_lt _ _ hchild,
      Buffer.byte_write_of_lt _ _ hstart, Buffer.byte_write_of_lt, NodeHeader.sizeAt,
      NodeHeader.maxSizeAt, NodeHeader.pageIdAt, NodeHeader.parentIdAt, Nat.reduceLT,
      Page.byte_setHeader_zero]
    rfl
  · simp only [format, require_bind, if_neg hmax] at h
    cases h

theorem Opened.kind (h : v.Opened) : v.page.kind = .inner := by
  cases h with
  | ofPage h => exact (ofPage_sound h).1
  | format h => exact (format_sound h).1

theorem Opened.sound (h : v.Opened) : v.Sound := by
  cases h with
  | ofPage h => exact (ofPage_sound h).2
  | format h => exact (format_sound h).2

/-- A node with threshold and identifier of another one, at most one slot past the threshold,
whose page opens unless it has no slot. -/
structure Reopens (v w : Node K) : Prop where
  maxSize : w.maxSize = v.maxSize
  pageId : w.pageId = v.pageId
  size_le : w.size ≤ v.maxSize + 1
  ofPage : Node.ofPage w.page =
    if w.size = 0 then .error (.corrupted v.pageId (.sizeOutside 0 (v.maxSize + 1)))
    else .ok w

theorem Opened.reopens {count : Nat} (h : v.Opened) (hw : Edited v w count) : Reopens v w := by
  have hbounded := hw.bounded h.sound.bounded
  refine ⟨hw.maxSize, hw.pageId, hw.maxSize ▸ hbounded.size_le, ?_⟩
  rw [ofPage_eq, if_pos (hw.kind.trans h.kind),
    if_pos ⟨hbounded.two_le_maxSize, hbounded.maxSize_lt⟩]
  by_cases hzero : w.size = 0
  · rw [if_pos hzero, if_neg (by omega), hzero, hw.pageId, hw.maxSize]
  · rw [if_neg hzero, if_pos ⟨Nat.pos_of_ne_zero hzero, hbounded.size_le⟩]

/-! ### The last slot -/

/-- The changes that leave a node without a slot, if they are answered. -/
def Change.Empties (v : Node K) : Change K → Prop
  | .erase _ => v.size = 1
  | .fill _ count => count = 0
  | _ => False

omit [Key K] in
theorem Change.count_pos_iff (hv : 1 ≤ v.size) (c : Change K) :
    1 ≤ c.count v ↔ ¬ c.Empties v := by
  cases c with
  | erase i => simp only [count, Empties]; omega
  | fill items count => simp only [Change.count, Empties]; omega
  | _ => exact iff_of_true (by simp only [count]; omega) not_false

end Opening

variable {ι K : Type} [DecidableEq ι] [Key K] [KeyText K] {s : Nodes ι K}

/-! ### Stopped calls -/

/-- A call on bounded nodes that is stopped leaves every node as it was. -/
theorem Call.stopped_unchanged (hs : ∀ j, (s j).Bounded) {c : Call ι K} {f : Fault}
    {t : Nodes ι K} (h : c.task s = .error f t) : t = s :=
  ((c.ends hs).of_error h).2

/-- Three nodes with two slots each, as many as they split at. -/
def fullNodes (j : Fin 3) : Node UInt32 :=
  ofSlots ⟨UInt32.ofNat j⟩ ⟨0⟩ 2 [(0, ⟨10⟩), (10, ⟨11⟩)]

theorem fullNodes_sound (j : Fin 3) : (fullNodes j).Sound :=
  ofSlots_sound _ _ _ _ (by decide) (by decide)

/-- A slot is lent to a neighbour that has no room for it. -/
theorem lendFirst_to_full :
    (∀ j, (fullNodes j).Bounded) ∧ ∃ t,
      (Call.lendFirst (2 : Fin 3) 1 0).task fullNodes = .error (.nodeFull ⟨1⟩) t ∧
        t = fullNodes := by
  have hs : ∀ j, (fullNodes j).Bounded := fun j => (fullNodes_sound j).bounded
  have hparts : ∀ j, (fullNodes j).slots.length = 2 ∧ (fullNodes j).maxSize = 2 ∧
      (fullNodes j).pageId = ⟨UInt32.ofNat j⟩ := fun j => by
    obtain ⟨hslots, hmax, hid, _⟩ := ofSlots_eq (K := UInt32) ⟨UInt32.ofNat j⟩ ⟨0⟩ 2
      [(0, ⟨10⟩), (10, ⟨11⟩)] (by decide) (by decide)
    exact ⟨congrArg List.length hslots, hmax, hid⟩
  have hsize : ∀ j, (fullNodes j).size = 2 := fun j => by rw [← length_slots, (hparts j).1]
  have hstop : Ends ((Call.lendFirst (2 : Fin 3) 1 0).task) fullNodes (fun _ _ => False)
      fun f _ => f = .nodeFull ⟨1⟩ := by
    have hcapacity := (hs 2).size_le_capacity
    have htwo := hsize 2
    simp only [Call.task, Call.respond, onFamily, Family.lendFirst, Family.onNode,
      Family.onReceivers, Pair.takeLast, ends_discard, ends_map, ends_zoom, ends_bind, ends_get,
      ends_require]
    refine ⟨fun _ => ?_, fun hno => absurd (show 1 < 2 by decide) (htwo ▸ hno)⟩
    rw [ends_answer (readKey_eq _ (show 1 < capacity UInt32 by omega)),
      ends_answer (readChild_eq _ (show 0 < capacity UInt32 by omega))]
    refine ⟨fun hroom => ?_, fun _ => by rw [(hparts 1).2.2]; rfl⟩
    rw [hsize, (hparts 1).2.1] at hroom
    exact absurd hroom (by decide)
  cases h : (Call.lendFirst (2 : Fin 3) 1 0).task fullNodes with
  | ok _ t => exact (hstop.of_ok h).elim
  | error f t =>
      obtain rfl := hstop.of_error h
      exact ⟨hs, t, rfl, Call.stopped_unchanged hs h⟩

/-! ### Rows of calls -/

/-- However operations are called on opened nodes, each node stays within its capacity, and only
checks stop a call; a traversal of a node breaks only where the pool has no more pins to give. -/
theorem opened_stay_inside (hs : ∀ j, (s j).Opened) (cs : List (Call ι K)) :
    (∀ j, (s.after cs j).size ≤ (s.after cs j).maxSize + 1 ∧
      (s.after cs j).maxSize + 1 ≤ capacity K) ∧
    (∀ (c : Call ι K) f t, c.task (s.after cs) = .error f t → f.isChecked = true) ∧
    ∀ (j : ι) {n : Nat} (visit visit' : Visit n) f,
      Visit.queueChildren (s.after cs j) visit = .error (.broken f) visit' →
        f.isChecked = true := by
  have hs' : ∀ j, (s j).Bounded := fun j => (hs j).sound.bounded
  have hbounded : ∀ j, (s.after cs j).Bounded := fun j =>
    (after_edited hs' cs j).bounded (hs' j)
  refine ⟨fun j => ⟨(hbounded j).size_le, (hbounded j).maxSize_lt⟩, fun c f t h => ?_, ?_⟩
  · exact ((c.ends hbounded).of_error h).1
  · intro j n visit visit' f h
    have hf : f = .outOfRange := (Visit.queueChildren_limited (hbounded j) visit).of_error h
    rw [hf]
    rfl

/-- A new node that loses its only slot and is then asked for another one. -/
theorem opened_stay_inside_one :
    ∃ v : Node UInt32, Node.format Page.zero ⟨1⟩ ⟨0⟩ 2 = .ok v ∧
      let s : Nodes Unit UInt32 := fun _ => v
      let cs : List (Call Unit UInt32) := [.change () (.erase 0), .change () (.erase 0)]
      (∀ j, (s j).Opened) ∧
      (∀ j, (s.after cs j).size ≤ (s.after cs j).maxSize + 1 ∧
        (s.after cs j).maxSize + 1 ≤ capacity UInt32) ∧
      (∀ (c : Call Unit UInt32) f t, c.task (s.after cs) = .error f t → f.isChecked = true) ∧
      ∀ (j : Unit) {n : Nat} (visit visit' : Visit n) f,
        Visit.queueChildren (s.after cs j) visit = .error (.broken f) visit' →
          f.isChecked = true := by
  obtain ⟨v, hv, _⟩ :=
    format_eq Page.zero ⟨1⟩ ⟨0⟩ (show 2 ≤ 2 ∧ 2 < capacity UInt32 by decide)
  have hs : ∀ _ : Unit, v.Opened := fun _ => .format hv
  exact ⟨v, hv, hs, opened_stay_inside hs _⟩

/-- The calls that leave a node without a slot, if they are answered. -/
def Call.Empties (s : Nodes ι K) : Call ι K → Prop
  | .change node c => c.Empties (s node)
  | .moveHalf node _ => (s node).size = 1
  | .mergeInto _ _ parent _ => (s parent).size = 1
  | _ => False

/-- A call takes the last slot of a node. -/
def Call.Drains (s : Nodes ι K) (c : Call ι K) : Prop :=
  c.Empties s ∧ ∃ t, c.task s = .ok () t

theorem pos_update_iff {counts : ι → Nat} (h : ∀ j, 1 ≤ counts j) (node : ι) {m : Nat} :
    (∀ j, 1 ≤ update counts node m j) ↔ 1 ≤ m :=
  (forall_update_iff counts fun _ m => 1 ≤ m).trans ⟨And.left, fun hm => ⟨hm, fun j _ => h j⟩⟩

omit [Key K] [KeyText K] in
theorem Call.sizes_pos_iff (hpos : ∀ j, 1 ≤ (s j).size) {c : Call ι K} (hlends : c.Lends s) :
    (∀ j, 1 ≤ c.sizes s j) ↔ ¬ c.Empties s := by
  cases c with
  | look node l => exact iff_of_true hpos not_false
  | change node c => exact (pos_update_iff hpos node).trans (c.count_pos_iff (hpos node))
  | moveHalf node recipient =>
      have hnode := hpos node
      have hkept := (pos_update_iff hpos node).mpr
        (show 1 ≤ (s node).size - (s node).size / 2 by omega)
      refine (pos_update_iff hkept recipient).trans ?_
      simp only [Empties]
      omega
  | takeLast node parent _ _ | takeFirst node parent _ _ _ =>
      have hkept := (pos_update_iff hpos node).mpr (Nat.le_add_left 1 (s node).size)
      exact iff_of_true ((pos_update_iff hkept parent).mpr (hpos parent)) not_false
  | mergeInto node recipient parent i =>
      have hrecipient := hpos recipient
      have hparent := hpos parent
      have hkept := (pos_update_iff hpos node).mpr (Nat.le_refl 1)
      have hkept' := (pos_update_iff hkept recipient).mpr
        (show 1 ≤ (s recipient).size + ((s node).size - 1) by omega)
      refine (pos_update_iff hkept' parent).trans ?_
      simp only [Empties]
      omega
  | lendFirst node recipient parent | lendLast node recipient parent _ =>
      have hkept := (pos_update_iff hpos node).mpr (Nat.le_sub_one_of_lt hlends)
      have hkept' := (pos_update_iff hkept recipient).mpr (Nat.le_add_left 1 (s recipient).size)
      exact iff_of_true ((pos_update_iff hkept' parent).mpr (hpos parent)) not_false

/-- A call on sound nodes leaves a slot in each of them unless it drains one. -/
theorem Call.after_pos_iff (hs : ∀ j, (s j).Bounded) (hpos : ∀ j, 1 ≤ (s j).size)
    (c : Call ι K) : (∀ j, 1 ≤ (c.after s j).size) ↔ ¬ c.Drains s := by
  rcases call_after hs c with ⟨hok, hedited, hlends⟩ | ⟨hstop, hsame⟩
  · have hsizes : ∀ j, (c.after s j).size = c.sizes s j := fun j => (hedited j).size
    simp only [hsizes, sizes_pos_iff hpos hlends, Drains]
    exact ⟨fun h hd => h hd.1, fun h he => h ⟨he, _, hok⟩⟩
  · rw [hsame]
    exact iff_of_true hpos fun hd => hstop hd.2

/-- Along a row of calls on opened nodes, every node keeps threshold and identifier, goes at most
one slot past its threshold, and opens again as long as it has a slot; all of them have one
throughout exactly when no call takes the last slot of a node. -/
theorem opened_reopen_iff (hs : ∀ j, (s j).Opened) (cs : List (Call ι K)) :
    (∀ done, done <+: cs → ∀ j, Reopens (s j) (s.after done j)) ∧
    ((∀ done, done <+: cs → ∀ j, 1 ≤ (s.after done j).size) ↔
      ∀ done c, done ++ [c] <+: cs → ¬ c.Drains (s.after done)) := by
  have hs' : ∀ j, (s j).Bounded := fun j => (hs j).sound.bounded
  have hbounded : ∀ done j, (s.after done j).Bounded := fun done j =>
    (after_edited hs' done j).bounded (hs' j)
  refine ⟨fun done _ j => ?_, fun hpos done c hdone => ?_, fun hdrains done hdone => ?_⟩
  · exact (hs j).reopens (after_edited hs' done j)
  · have hbefore := hpos done ((List.prefix_append done [c]).trans hdone)
    have hafter := hpos _ hdone
    rw [after_append] at hafter
    exact (c.after_pos_iff (hbounded done) hbefore).mp hafter
  · -- By the last call: all nodes have slots before it.
    induction done using List.reverseRecOn with
    | nil => exact fun j => (hs j).sound.size_pos
    | append_singleton done c ih =>
        have hbefore := ih ((List.prefix_append done [c]).trans hdone)
        rw [after_append]
        exact (c.after_pos_iff (hbounded done) hbefore).mpr (hdrains done c hdone)

/-- A new node gets a second slot and loses it again. -/
theorem opened_reopen_one :
    ∃ v : Node UInt32, Node.format Page.zero ⟨1⟩ ⟨0⟩ 2 = .ok v ∧
      let s : Nodes Unit UInt32 := fun _ => v
      let cs : List (Call Unit UInt32) :=
        [.change () (.insertAfter PageId.invalid 5 ⟨7⟩), .change () (.erase 1)]
      (∀ j, (s j).Opened) ∧
      (∀ done, done <+: cs → ∀ j, Reopens (s j) (s.after done j)) ∧
      ((∀ done, done <+: cs → ∀ j, 1 ≤ (s.after done j).size) ↔
        ∀ done c, done ++ [c] <+: cs → ¬ c.Drains (s.after done)) := by
  obtain ⟨v, hv, _⟩ :=
    format_eq Page.zero ⟨1⟩ ⟨0⟩ (show 2 ≤ 2 ∧ 2 < capacity UInt32 by decide)
  have hs : ∀ _ : Unit, v.Opened := fun _ => .format hv
  exact ⟨v, hv, hs, opened_reopen_iff hs _⟩

/-- A new node loses its only slot, and its page does not open any more. -/
theorem erase_last_slot :
    ∃ v w : Node UInt32, Node.format Page.zero ⟨1⟩ ⟨0⟩ 2 = .ok v ∧ Edit.erase 0 v = .ok () w ∧
      w.size = 0 ∧ (Node.ofPage w.page : Except Error (Node UInt32)) =
        .error (.corrupted ⟨1⟩ (.sizeOutside 0 3)) := by
  obtain ⟨v, hv, hsound, hsize, hmax, hid, _⟩ :=
    format_eq Page.zero ⟨1⟩ ⟨0⟩ (show 2 ≤ 2 ∧ 2 < capacity UInt32 by decide)
  have herase : (Edit.erase 0).Answers v fun _ w => Edited v w (v.size - 1) :=
    ((Edit.erase_ends hsound.bounded).mono (fun _ _ h => h)
      fun _ _ h => h.1 (by omega)).answers
  obtain ⟨_, w, hw, hedited⟩ := herase
  have hzero : w.size = 0 := by rw [hedited.size, hsize]
  refine ⟨v, w, hv, hw, hzero, ?_⟩
  rw [((Opened.format hv).reopens hedited).ofPage, if_pos hzero, hid, hmax]

end Node

end PagedIndex
