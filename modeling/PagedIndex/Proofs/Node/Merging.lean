import PagedIndex.Proofs.Node.Redistribution

/-! # Merging two neighbours

A caller merges a node into its left neighbour in two calls (`Family.absorb`): the first child goes
there under the separator of the two nodes, and the other slots follow.  Each call looks at the
threshold by itself, the second one with the first slot already in place.  Together the two checks
ask for nothing but room for the slots of both nodes: by `Family.absorb_iff` the merge goes through
exactly when they fit, and then the slots of the two nodes stand one behind the other, the parent
has lost the slot of the right node, and nothing else has changed. -/

namespace PagedIndex

open PagedIndex.Action Node Node.Edit

attribute [local irreducible] Ends

variable {K : Type} [Key K] {v left right recipient parent : Node K} {i : Nat}

namespace Node

/-- The slots of two nodes one behind the other, the first one of the right node under a key. -/
def joined (left right : Node K) (key : K) : Node K :=
  (left.inserted (left.size - 1) key (right.child 0)).appended right 1

theorem same_joined (left right : Node K) (key : K) : Same left (left.joined right key) :=
  (same_inserted _ _ _ _).trans (same_appended _ _ _)

theorem slots_joined (left right : Node K) (key : K) (hl : 1 ≤ left.size) (hr : 1 ≤ right.size)
    (hfit : left.size + right.size ≤ capacity K) :
    (left.joined right key).slots = left.slots ++ (key, right.child 0) :: right.slots.drop 1 := by
  have hinsert : (left.inserted (left.size - 1) key (right.child 0)).slots =
      left.slots ++ [(key, right.child 0)] := by
    rw [slots_inserted left key _ (by omega) (by omega), Nat.sub_add_cancel hl, ← length_slots left,
      List.insertIdx_length_self]
  have hsize := size_of_slots hinsert
  rw [List.length_append, length_slots, List.length_singleton] at hsize
  rw [joined, slots_appended hr (by omega), hinsert, List.append_assoc, List.singleton_append]

end Node

namespace Family

/-- Move all slots to the left neighbour, the first one under the separator in slot `i` of the
parent. -/
def absorb (i : Nat) : Edit K Unit := do
  let ⟨v, recipient, parent⟩ ← get
  let last ← recipient.childAt (recipient.size - 1)
  let separator ← parent.keyAt i
  let first ← v.childAt 0
  discard (onRecipient (insertAfter last separator first))
  mergeInto i

/-- A recipient without room for the slots that follow stops the call. -/
theorem mergeInto_full (hpos : 1 ≤ v.size)
    (hfull : recipient.maxSize < recipient.size + (v.size - 1)) :
    (mergeInto i).Ends ⟨v, recipient, parent⟩ (fun _ _ => False) fun c t =>
      c = .mergeOverflow (v.size - 1) recipient.pageId recipient.size recipient.maxSize ∧
        t = ⟨v, recipient, parent⟩ := by
  simp only [mergeInto, ends_bind, ends_get, ends_require]
  refine ⟨fun _ => ⟨fun hroom => ?_, fun _ => ⟨trivial, trivial⟩⟩, fun hempty => ?_⟩
  · exact absurd hroom (Nat.not_le_of_lt hfull)
  · exact absurd (Nat.ne_of_gt hpos) hempty

/-- Where the two calls end: either both go through, or the second one finds no room.  The first
slot goes behind slot `k`, the first one that points at the last child of the left node. -/
theorem absorb_ends (hl : left.Sound) (hroom : left.size ≤ left.maxSize) (hr : right.Sound)
    (hp : parent.Sound) (hi : i < parent.size) (hchild : parent.child i = right.pageId)
    (hfamily : right.parentId = parent.pageId) {k : Nat}
    (hindex : left.childIndex (left.child (left.size - 1)) = .ok k) (hk : k < left.size) :
    (absorb i).Ends ⟨right, left, parent⟩
      (fun _ t => left.size + right.size ≤ left.maxSize ∧
        t = ⟨right.setSize 1, (left.inserted k (parent.key i) (right.child 0)).appended right 1,
          parent.erased i⟩)
      fun c _ => left.maxSize < left.size + right.size ∧
        c = .mergeOverflow (right.size - 1) left.pageId (left.size + 1) left.maxSize := by
  have hmax := hl.maxSize_lt
  have hposl := hl.size_pos
  have hposr := hr.size_pos
  simp only [absorb, onRecipient, ends_bind, ends_get, ends_discard, ends_zoom,
    ends_answer (childAt_eq hl.size_le_capacity (show left.size - 1 < left.size by omega)),
    ends_answer (keyAt_eq hp.size_le_capacity hi),
    ends_answer (childAt_eq hr.size_le_capacity (show 0 < right.size by omega))]
  rw [ends_of_eq (insertAfter_eq hl hroom hindex hk)]
  have hsame := same_inserted left k (parent.key i) (right.child 0)
  have hsize : (left.inserted k (parent.key i) (right.child 0)).size = left.size + 1 :=
    size_inserted left (by omega)
  have hmaxSize := hsame.maxSize
  by_cases hfit : left.size + right.size ≤ left.maxSize
  · have hsound := hl.of_same hsame (by omega) (by omega)
    rw [ends_of_eq (mergeInto_eq hr hsound hp (by omega) hfamily.symm hi hchild)]
    exact ⟨hfit, rfl⟩
  · refine (mergeInto_full hposr (by omega)).mono (fun _ _ hno => hno.elim) fun c t hc => ?_
    rw [hc.1, hsame.pageId, hsize, hmaxSize]
    exact ⟨by omega, rfl⟩

/-- A node can be merged into its left neighbour exactly when the neighbour has room for the slots
of both.  Then these are its slots, the first one of the node under the old separator; the parent
has lost the slot of the node, the node keeps its first slot, and of the headers only the sizes
change. -/
theorem absorb_iff (hl : left.Sound) (hroom : left.size ≤ left.maxSize) (hr : right.Sound)
    (hp : parent.Sound) (hi : i < parent.size) (hchild : parent.child i = right.pageId)
    (hfamily : right.parentId = parent.pageId)
    (hlast : ∀ j, j + 1 < left.size → left.child j ≠ left.child (left.size - 1)) :
    ((∃ t, absorb i ⟨right, left, parent⟩ = .ok () t) ↔ left.size + right.size ≤ left.maxSize) ∧
    ∀ right' left' parent', absorb i ⟨right, left, parent⟩ = .ok () ⟨right', left', parent'⟩ →
      left'.slots = left.slots ++ (parent.key i, right.child 0) :: right.slots.drop 1 ∧
      parent'.slots = parent.slots.eraseIdx i ∧ right'.slots = [right.slot 0] ∧
      Same left left' ∧ Same parent parent' ∧ Same right right' := by
  have hmax := hl.maxSize_lt
  have hpos := hl.size_pos
  have hindex : left.childIndex (left.child (left.size - 1)) = .ok (left.size - 1) :=
    childIndex_first hl.size_le_capacity (by omega) rfl fun j hj => hlast j (by omega)
  have hends := absorb_ends hl hroom hr hp hi hchild hfamily hindex (by omega)
  refine ⟨?_, fun right' left' parent' hrun => ?_⟩
  · have hiff := (hends.mono (fun _ _ h => h.1) fun _ _ h => Nat.not_le_of_lt h.1).ok_iff
    rw [← hiff]
    exact ⟨fun ⟨t, ht⟩ => ⟨(), t, ht⟩, fun ⟨_, t, ht⟩ => ⟨t, ht⟩⟩
  · obtain ⟨hfit, hstate⟩ := hends.of_ok hrun
    injection hstate with hright hleft hparent
    obtain ⟨x, l, hslots⟩ := hr.exists_cons
    have hzero : right.slot 0 = x := slot_at (a := []) hslots
    rw [hright, hleft, hparent]
    refine ⟨slots_joined _ _ _ hl.size_pos hr.size_pos (by omega),
      slots_erased _ hp.size_le_capacity hi, ?_, same_joined _ _ _, same_erased _ _,
      (Same.refl right).setSize 1⟩
    rw [slots_setSize right hr.size_pos hr.size_le_capacity, hslots, hzero]
    rfl

open Neighbours in
/-- Two nodes of two slots each are merged under a threshold of four; under a threshold of three
they are not. -/
theorem absorb_iff_upper :
    (∃ right left parent, absorb 2 ⟨upper, lower 4, above⟩ = .ok () ⟨right, left, parent⟩ ∧
      left.slots = [(0, ⟨10⟩), (10, ⟨11⟩), (20, ⟨12⟩), (30, ⟨13⟩)] ∧
      parent.slots = [(0, ⟨9⟩), (5, ⟨2⟩)] ∧ right.slots = [(7, ⟨12⟩)]) ∧
    ¬ ∃ t, absorb 2 ⟨upper, lower 3, above⟩ = .ok () t := by
  obtain ⟨hslotsr, -⟩ := upper_slots
  have hsizer : upper.size = 2 := size_of_slots hslotsr
  have htwo : above.slot 2 = (20, ⟨3⟩) := slot_at (a := [(0, ⟨9⟩), (5, ⟨2⟩)]) above_slots
  have hzero : upper.slot 0 = (7, ⟨12⟩) := slot_at (a := []) hslotsr
  obtain ⟨hkey, -⟩ := Prod.mk.inj htwo
  obtain ⟨-, hfirst⟩ := Prod.mk.inj hzero
  -- The threshold of the left node is the only difference between the two runs.
  have hnode : ∀ maxSize, 2 ≤ maxSize ∧ maxSize < capacity UInt32 →
      (lower maxSize).size = 2 ∧ (lower maxSize).maxSize = maxSize ∧
        ∀ j, j + 1 < (lower maxSize).size →
          (lower maxSize).child j ≠ (lower maxSize).child ((lower maxSize).size - 1) := by
    intro maxSize h
    obtain ⟨hslots, hmaxSize⟩ := lower_slots h.2
    have hsize : (lower maxSize).size = 2 := size_of_slots hslots
    have h₀ : (lower maxSize).slot 0 = (0, ⟨10⟩) := slot_at (a := []) hslots
    have h₁ : (lower maxSize).slot 1 = (10, ⟨11⟩) := slot_at (a := [(0, ⟨10⟩)]) hslots
    obtain ⟨-, hchild₀⟩ := Prod.mk.inj h₀
    obtain ⟨-, hchild₁⟩ := Prod.mk.inj h₁
    refine ⟨hsize, hmaxSize, fun j hj => ?_⟩
    obtain rfl : j = 0 := by omega
    rw [hsize, hchild₀, hchild₁]
    decide
  have hfour : 2 ≤ 4 ∧ 4 < capacity UInt32 := by decide
  have hthree : 2 ≤ 3 ∧ 3 < capacity UInt32 := by decide
  obtain ⟨hsize₄, hmax₄, hlast₄⟩ := hnode 4 hfour
  obtain ⟨hsize₃, hmax₃, hlast₃⟩ := hnode 3 hthree
  have hkin := lower_upper hfour.2
  obtain ⟨hiff, hslots⟩ := absorb_iff (lower_sound hfour) (by omega) upper_sound above_sound
    hkin.lt_size hkin.right_child hkin.right_parent hlast₄
  obtain ⟨⟨right, left, parent⟩, hrun⟩ := hiff.mpr (by omega)
  obtain ⟨hleft, hparent, hright, -⟩ := hslots right left parent hrun
  refine ⟨⟨right, left, parent, hrun, ?_, ?_, ?_⟩, ?_⟩
  · rw [hleft, (lower_slots hfour.2).1, hkey, hfirst, hslotsr]
    rfl
  · rw [hparent, above_slots]
    rfl
  · rw [hright, hzero]
  · rw [(absorb_iff (lower_sound hthree) (by omega) upper_sound above_sound hkin.lt_size
      hkin.right_child hkin.right_parent hlast₃).1]
    omega

end Family

end PagedIndex
