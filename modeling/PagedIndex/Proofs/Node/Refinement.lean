import PagedIndex.Proofs.Node.Footprint
import PagedIndex.Proofs.Node.Restamping

/-! # Changes of one node are list operations

`Change.onSlots` says on a list of slots what a change answers and which list it leaves, and when
it has no answer.  The node follows it (`Change.respond_onSlots`): the call stops where the list
operation is undefined, and else gives its answer, the slots of the node are its list, and the
shifts of raw bytes behind it have touched nothing but the size and the slots up to the longer one
of the two lists.  There is one rule for each change, all of the form `Change.Refines`; any keys and
any children are allowed, the same child in several slots too. -/

namespace PagedIndex

open PagedIndex.Action

attribute [local irreducible] Ends

namespace Node

variable {K : Type} [Key K] {v w : Node K} {l : List (K × PageId)} {key : K} {old id : PageId}
variable {items : List UInt8} {i start count : Nat} {r : Reply K}

/-! ### Changes on lists -/

/-- A run of slots given as bytes. -/
def slotsOf (K : Type) [Key K] (items : List UInt8) (count : Nat) : List (K × PageId) :=
  (List.range count).map (slotOf K items)

/-- What a change answers on a list of slots and the list that it leaves, if it has an answer.
Only the threshold is asked for besides the list. -/
def Change.onSlots (maxSize : Nat) (l : List (K × PageId)) :
    Change K → Option (Reply K × List (K × PageId))
  | setKey i key =>
      if i < l.length then some (.done, l.modify i fun e => (key, e.2)) else none
  | setChild i id =>
      if i < l.length then some (.done, l.modify i fun e => (e.1, id)) else none
  | setParent _ => some (.done, l)
  | plant old key id =>
      match l with
      | [e] => some (.done, [(e.1, old), (key, id)])
      | _ => none
  | insertAfter old key id =>
      let i := l.findIdx fun e => e.2 = old
      if l.length ≤ maxSize ∧ i < l.length then
        some (.count (l.length + 1), l.insertIdx (i + 1) (key, id))
      else none
  | fill items count =>
      if l.length = 1 ∧ count ≤ maxSize ∧ items.length = count * slotWidth K then
        some (.done, slotsOf K items count)
      else none
  | erase i => if i < l.length then some (.done, l.eraseIdx i) else none
  | collapse =>
      match l with
      | [e, _] => some (.page e.2, [e])
      | _ => none
  | append items count =>
      if l.length + count ≤ maxSize ∧ items.length = count * slotWidth K then
        some (.done, l ++ slotsOf K items count)
      else none

/-- The call ends on the node as the change does on its slots, inside the frame of the two lists. -/
def Change.Refines (v : Node K) (c : Change K) : Prop :=
  c.respond.Ends v
    (fun r w => c.onSlots v.maxSize v.slots = some (r, w.slots) ∧ Framed (max v.size w.size) v w)
    fun _ w => c.onSlots v.maxSize v.slots = none ∧ w = v

/-! ### Stores on lists -/

theorem refined (hslots : w.slots = l) (hframe : Framed (max v.size l.length) v w) :
    some (r, l) = some (r, w.slots) ∧ Framed (max v.size w.size) v w := by
  rw [size_of_slots hslots, hslots]
  exact ⟨rfl, hframe⟩

theorem slots_modify {f : K × PageId → K × PageId} (hheader : w.header = v.header)
    (hslot : ∀ j, w.slot j = if j = i then f (v.slot j) else v.slot j) :
    w.slots = v.slots.modify i f := by
  refine slots_eq (by rw [size_of_header hheader, List.length_modify, length_slots]) fun j hj => ?_
  rw [List.getElem_modify, hslot]
  by_cases hji : j = i
  · rw [if_pos hji, if_pos hji.symm, getElem_slots]
  · rw [if_neg hji, if_neg (Ne.symm hji), getElem_slots]

/-- Slots given as bytes behind the first ones of a node. -/
theorem slots_stored (v : Node K) (hlen : items.length = count * slotWidth K)
    (hstart : start ≤ v.size) (hfit : start + count ≤ capacity K) :
    ((v.stored start items).setSize (start + count)).slots =
      v.slots.take start ++ slotsOf K items count := by
  have htake : (v.slots.take start).length = start := by rw [List.length_take, length_slots]; omega
  refine slots_eq ?_ fun j hj => ?_
  · rw [size_setSize hfit, List.length_append, htake, slotsOf, List.length_map, List.length_range]
  · rw [slot_setSize, slot_stored v hlen (slotStart_le_pageSize hfit)]
    rw [List.length_append, htake, slotsOf, List.length_map, List.length_range] at hj
    by_cases hj' : j < start
    · rw [if_neg (by omega), List.getElem_append_left (by omega), List.getElem_take, getElem_slots]
    · rw [if_pos (by omega), List.getElem_append_right (by omega)]
      simp only [slotsOf, List.getElem_map, List.getElem_range, htake]

/-! ### One rule for each change -/

namespace Change

theorem refines_setKey (hv : v.Sound) : (setKey i key).Refines v := by
  have hcapacity := hv.size_le_capacity
  simp only [Refines, respond, onSlots, Edit.setKey, requireSlot, length_slots, ends_map,
    ends_bind, ends_get, ends_require]
  refine ⟨fun hi => ?_, fun hi => ⟨if_neg hi, trivial⟩⟩
  rw [if_pos hi]
  apply Edit.putKey_ends (by omega)
  refine refined (slots_modify (by simp) fun j => slot_withKey v (by omega)) ?_
  exact (Framed.refl _ v).withKey (by omega) key

theorem refines_setChild (hv : v.Sound) : (setChild i id).Refines v := by
  have hcapacity := hv.size_le_capacity
  simp only [Refines, respond, onSlots, Edit.setChild, requireSlot, length_slots, ends_map,
    ends_bind, ends_get, ends_require]
  refine ⟨fun hi => ?_, fun hi => ⟨if_neg hi, trivial⟩⟩
  rw [if_pos hi]
  apply Edit.putChild_ends (by omega)
  refine refined (slots_modify (by simp) fun j => slot_withChild v (by omega)) ?_
  exact (Framed.refl _ v).withChild (by omega) id

theorem refines_erase (hv : v.Sound) : (erase i : Change K).Refines v := by
  have hcapacity := hv.size_le_capacity
  simp only [Refines, respond, onSlots, Edit.erase, Edit.resize, requireSlot, length_slots,
    ends_map, ends_bind, ends_get, ends_require, ends_modify]
  refine ⟨fun hi => ?_, fun hi => ⟨if_neg hi, trivial⟩⟩
  rw [if_pos hi]
  apply Edit.shift_ends hcapacity (by omega) (by omega)
  exact refined (slots_erased v hcapacity hi) ((framed_erased v hi).mono (Nat.le_max_left _ _))

theorem refines_insertAfter (hv : v.Sound) : (insertAfter old key id).Refines v := by
  have hcapacity := hv.size_le_capacity
  have hmax := hv.maxSize_lt
  simp only [Refines, respond, onSlots, Edit.insertAfter, Edit.resize, length_slots, ends_map,
    ends_bind, ends_get, ends_require, ends_modify, ends_pure,
    ends_answer (childIndex_findIdx hcapacity old)]
  refine ⟨fun hfit => ⟨fun hi => ?_, fun hi => ⟨if_neg fun h => hi h.2, trivial⟩⟩,
    fun hfit => ⟨if_neg fun h => hfit h.1, trivial⟩⟩
  rw [if_pos ⟨hfit, hi⟩]
  apply Edit.shift_ends hcapacity (by omega) (by omega)
  apply Edit.putKey_ends (by omega)
  apply Edit.putChild_ends (by omega)
  refine refined (slots_inserted v key id (by omega) hi) ((framed_inserted v hi key id).mono ?_)
  rw [List.length_insertIdx_of_le_length (by simp; omega), length_slots]
  exact Nat.le_max_right _ _

theorem refines_plant (hv : v.Sound) : (plant old key id).Refines v := by
  have hmax := hv.maxSize_lt
  have htwo := hv.two_le_maxSize
  obtain ⟨e, l, hslots⟩ := hv.exists_cons
  have hlen := size_of_slots hslots
  rw [List.length_cons] at hlen
  simp only [Refines, respond, Edit.plant, Edit.resize, ends_map, ends_bind, ends_get,
    ends_require, ends_modify, hslots]
  refine ⟨fun hone => ?_, fun hone => ?_⟩
  · obtain rfl : l = [] := List.length_eq_zero_iff.mp (by omega)
    have hkept : (v.withChild 0 old).size = 1 := (size_of_header (by simp)).trans hone
    have hset : (v.withChild 0 old).slots = [(e.1, old)] :=
      slots_withChild_at (a := []) hv.size_le_capacity hslots old
    have hpush := slots_push (v.withChild 0 old) (key, id) (by omega)
    rw [hset, push, hkept] at hpush
    apply Edit.putChild_ends (by omega)
    apply Edit.putKey_ends (by omega)
    apply Edit.putChild_ends (by omega)
    have hframe : Framed 2 v (((v.withChild 0 old).withKey 1 key).withChild 1 id) :=
      (((Framed.refl 2 v).withChild (by decide) old).withKey (by decide) key).withChild (by decide)
        id
    exact refined hpush ((hframe.setSize 2).mono (Nat.le_max_right _ _))
  · obtain ⟨f, l, rfl⟩ : ∃ f m, l = f :: m := List.exists_cons_of_length_pos (by omega)
    exact ⟨rfl, trivial⟩

theorem refines_collapse (hv : v.Sound) : (collapse : Change K).Refines v := by
  have hmax := hv.maxSize_lt
  have hcapacity := hv.size_le_capacity
  have hread := readChild_eq (v.setSize 1) (show 0 < capacity K by omega)
  simp only [Refines, respond, Edit.collapse, Edit.resize, ends_map, ends_bind, ends_get,
    ends_require, ends_modify, ends_answer hread]
  refine ⟨fun hsize => ?_, fun hsize => ⟨?_, trivial⟩⟩
  · obtain ⟨x, y, l, hslots⟩ := exists_cons_cons (v := v) (by omega)
    have hlen := size_of_slots hslots
    rw [List.length_cons, List.length_cons] at hlen
    obtain rfl : l = [] := List.length_eq_zero_iff.mp (by omega)
    have htake := slots_setSize v (show 1 ≤ v.size by omega) hcapacity
    have hfirst : (v.setSize 1).child 0 = x.2 :=
      congrArg Prod.snd ((slot_setSize v 1).trans (slot_at (a := []) hslots))
    rw [hslots] at htake
    rw [hfirst, hslots]
    exact refined htake ((Framed.refl _ v).setSize 1)
  · rcases hslots : v.slots with - | ⟨x, - | ⟨y, - | ⟨z, l⟩⟩⟩
    · rfl
    · rfl
    · exact absurd (size_of_slots hslots) hsize
    · rfl

theorem refines_fill (hv : v.Sound) : (fill items count : Change K).Refines v := by
  have hmax := hv.maxSize_lt
  simp only [Refines, respond, onSlots, Edit.fill, Edit.resize, length_slots, ends_map,
    ends_bind, ends_get, ends_require, ends_modify]
  refine ⟨fun hone => ⟨fun hfit => ⟨fun hlen => ?_, fun hlen => ?_⟩, fun hfit => ?_⟩,
    fun hone => ?_⟩
  · rw [if_pos ⟨hone, hfit, hlen⟩]
    apply Edit.putSlots_ends hlen (by omega)
    have hslots := slots_stored v hlen (Nat.zero_le v.size) (by omega)
    rw [Nat.zero_add, List.take_zero, List.nil_append] at hslots
    refine refined hslots (((Framed.refl _ v).stored hlen ?_).setSize count)
    rw [slotsOf, List.length_map, List.length_range]
    omega
  · exact ⟨if_neg fun h => hlen h.2.2, trivial⟩
  · exact ⟨if_neg fun h => hfit h.2.1, trivial⟩
  · exact ⟨if_neg fun h => hone h.1, trivial⟩

theorem refines_append (hv : v.Sound) : (append items count : Change K).Refines v := by
  have hmax := hv.maxSize_lt
  have hcapacity := capacity_lt (K := K)
  have hword : UInt64.size = 18446744073709551616 := rfl
  simp only [Refines, respond, onSlots, Edit.append, Edit.resize, length_slots, ends_map,
    ends_bind, ends_get, ends_require, ends_modify]
  refine ⟨fun _ => ⟨fun hfit => ⟨fun hlen => ?_, fun hlen => ?_⟩, fun hfit => ?_⟩, fun hword => ?_⟩
  · rw [if_pos ⟨hfit, hlen⟩]
    apply Edit.putSlots_ends hlen (by omega)
    have hslots := slots_stored v hlen (Nat.le_refl v.size) (by omega)
    rw [← length_slots v, List.take_length, length_slots] at hslots
    refine refined hslots (((Framed.refl _ v).stored hlen ?_).setSize (v.size + count))
    rw [List.length_append, length_slots, slotsOf, List.length_map, List.length_range]
    omega
  · exact ⟨if_neg fun h => hlen h.2, trivial⟩
  · exact ⟨if_neg fun h => hfit h.1, trivial⟩
  · exact ⟨if_neg fun h => hword (by omega), trivial⟩

theorem refines (hv : v.Sound) (c : Change K) (hc : ∀ id, c ≠ setParent id) : c.Refines v := by
  cases c with
  | setKey i key => exact refines_setKey hv
  | setChild i id => exact refines_setChild hv
  | setParent id => exact absurd rfl (hc id)
  | plant old key id => exact refines_plant hv
  | insertAfter old key id => exact refines_insertAfter hv
  | fill items count => exact refines_fill hv
  | erase i => exact refines_erase hv
  | collapse => exact refines_collapse hv
  | append items count => exact refines_append hv

/-- A change of slots is the change of their list.  When the call answers, the list operation is
defined and has the same answer, and the node has its slots; page header, threshold, identifiers
and all bytes behind the longer one of the two rows of slots are as before.  When the call stops,
the list operation is undefined, and the node is as before. -/
theorem respond_onSlots (hv : v.Sound) (c : Change K) (hc : ∀ id, c ≠ setParent id) :
    (∀ r w, c.respond v = .ok r w →
      c.onSlots v.maxSize v.slots = some (r, w.slots) ∧ Framed (max v.size w.size) v w) ∧
    ∀ cause w, c.respond v = .error cause w → c.onSlots v.maxSize v.slots = none ∧ w = v :=
  ⟨fun _ _ => (refines hv c hc).of_ok, fun _ _ => (refines hv c hc).of_error⟩

/-- Two slots that point at the same child. -/
def forked : Node UInt32 := ofSlots ⟨1⟩ ⟨0⟩ 3 [(0, ⟨10⟩), (10, ⟨11⟩), (20, ⟨11⟩)]

/-- The new slot goes behind the first one of the two. -/
theorem respond_onSlots_forked :
    ∃ w, (insertAfter ⟨11⟩ 15 ⟨12⟩).respond forked = .ok (.count 4) w ∧
      w.slots = [(0, ⟨10⟩), (10, ⟨11⟩), (15, ⟨12⟩), (20, ⟨11⟩)] ∧ Framed 4 forked w := by
  obtain ⟨hslots, hmaxSize, -⟩ :=
    ofSlots_eq (K := UInt32) ⟨1⟩ ⟨0⟩ 3 [(0, ⟨10⟩), (10, ⟨11⟩), (20, ⟨11⟩)] (by decide) (by decide)
  obtain ⟨hanswer, hstop⟩ := respond_onSlots (v := forked)
    (ofSlots_sound _ _ _ _ (by decide) (by decide)) (insertAfter ⟨11⟩ 15 ⟨12⟩) nofun
  have hlist : (insertAfter ⟨11⟩ 15 ⟨12⟩).onSlots forked.maxSize forked.slots =
      some (.count 4, [(0, ⟨10⟩), (10, ⟨11⟩), (15, ⟨12⟩), (20, ⟨11⟩)]) := by
    rw [forked, hslots, hmaxSize]
    rfl
  cases hrun : (insertAfter ⟨11⟩ 15 ⟨12⟩).respond forked with
  | ok r w =>
      obtain ⟨hdone, hframe⟩ := hanswer r w hrun
      obtain ⟨rfl, hw⟩ := Prod.mk.inj (Option.some.inj (hlist.symm.trans hdone))
      have hsize : forked.size = 3 := size_of_slots hslots
      rw [hsize, size_of_slots hw.symm] at hframe
      exact ⟨w, rfl, hw.symm, hframe⟩
  | error cause w => exact absurd (hlist.symm.trans (hstop cause w hrun).1) nofun

end Change

end Node

end PagedIndex
