import PagedIndex.Proofs.Node.Footprint
import PagedIndex.Proofs.Node.Redistribution

/-! # Borrowing there and back

The two directions of borrowing undo each other: the child that crossed comes back under the key
that it left, and the parent gets its separator back (`Neighbours.borrowed_back`).  One direction
appends and closes the gap in front, the other one shifts the whole row of slots, so the four edits
are compared slot by slot (`prepend_withoutFirst`, `push_setSize` and their reverses) and a frame
turns equal slots into equal bytes.  What stays behind is the slot that the child has left at the
end of the node that lent it a place. -/

namespace PagedIndex

namespace Node

variable {K : Type} [Key K] {v parent left right left' right' : Node K} {i j k : Nat} {key : K}

/-- All bytes agree but those of slot `k`. -/
def EqualBut (k : Nat) (v w : Node K) : Prop :=
  ∀ i, ¬(slotStart K k ≤ i ∧ i < slotStart K (k + 1)) → w.page.byte i = v.page.byte i

theorem Framed.equalBut {m : Nat} {w : Node K} (h : Framed m v w) (hsize : w.size = v.size)
    (hslot : ∀ j < m, j ≠ k → w.slot j = v.slot j) : EqualBut k v w := fun i hout =>
  h.byte_eq hsize i fun j hj hlo hhi => hslot j hj fun heq => hout (heq ▸ ⟨hlo, hhi⟩)

/-! ### Edits and their reverses -/

theorem withKey_withKey (v : Node K) (hi : i < capacity K) (key : K) :
    (v.withKey i key).withKey i (v.key i) = v := by
  have hframe : Framed (capacity K) v ((v.withKey i key).withKey i (v.key i)) :=
    ((Framed.refl _ v).withKey hi key).withKey hi (v.key i)
  refine hframe.eq (size_of_header (by simp)) fun j _ => ?_
  rw [slot_withKey _ hi, slot_withKey _ hi, child_withKey]
  by_cases hj : j = i
  · rw [if_pos hj, hj]
    rfl
  · rw [if_neg hj, if_neg hj]

theorem push_setSize (v : Node K) (hpos : 1 ≤ v.size) (hsize : v.size ≤ capacity K) :
    (v.setSize (v.size - 1)).push (v.key (v.size - 1), v.child (v.size - 1)) = v := by
  have hless : (v.setSize (v.size - 1)).size = v.size - 1 := size_setSize (by omega) v
  have hframe : Framed v.size v
      ((v.setSize (v.size - 1)).push (v.key (v.size - 1), v.child (v.size - 1))) :=
    ((Framed.refl _ v).setSize _).trans ((framed_push _ _).mono (by omega))
  refine hframe.eq ?_ fun j _ => ?_
  · rw [size_push _ _ (by omega)]
    omega
  · rw [slot_push _ _ (by omega), slot_setSize, hless]
    by_cases hj : j = v.size - 1
    · rw [if_pos hj, hj]
      rfl
    · rw [if_neg hj]

theorem equalBut_setSize_push (v : Node K) (hsize : v.size < capacity K) (e : K × PageId) :
    EqualBut v.size v ((v.push e).setSize v.size) := by
  refine ((framed_push v e).setSize _).equalBut (size_setSize (by omega) _) fun j _ hj => ?_
  rw [slot_setSize, slot_push v e hsize, if_neg hj]

theorem prepend_withoutFirst (v : Node K) (hmany : 2 ≤ v.size) (hsize : v.size ≤ capacity K) :
    v.withoutFirst.prepend (v.key 1) (v.child 0) = v := by
  have hless : v.withoutFirst.size = v.size - 1 := size_withoutFirst v hsize
  have hframe : Framed v.size v (v.withoutFirst.prepend (v.key 1) (v.child 0)) :=
    (framed_withoutFirst v hmany).trans ((framed_prepend _ (by omega) _ _).mono (by omega))
  have hslot := fun j => slot_withoutFirst v hmany hsize (j := j)
  obtain ⟨hkey, hchild⟩ := Prod.mk.inj ((hslot 0).trans (if_pos rfl))
  refine hframe.eq ?_ fun j _ => ?_
  · rw [size_prepend _ (by omega)]
    omega
  rw [slot_prepend _ _ _ (by omega) (by omega), hless, hkey, hchild]
  by_cases hzero : j = 0
  · rw [if_pos hzero, hzero]
    rfl
  rw [if_neg hzero]
  by_cases hone : j = 1
  · rw [if_pos hone, hone]
    rfl
  rw [if_neg hone]
  by_cases hin : j ≤ v.size - 1
  · rw [if_pos hin, hslot, if_neg (by omega), if_pos (by omega), Nat.sub_add_cancel (by omega)]
  · rw [if_neg hin, hslot, if_neg hzero, if_neg (by omega)]

theorem equalBut_withoutFirst_prepend (v : Node K) (hpos : 1 ≤ v.size) (hsize : v.size < capacity K)
    (key : K) (id : PageId) : EqualBut v.size v (v.prepend key id).withoutFirst := by
  have hmore : (v.prepend key id).size = v.size + 1 := size_prepend v hsize key id
  have hframe : Framed (v.size + 1) v (v.prepend key id).withoutFirst :=
    (framed_prepend v hpos key id).trans ((framed_withoutFirst _ (by omega)).mono (by omega))
  obtain ⟨hkey, -⟩ := Prod.mk.inj (slot_prepend_zero v key id hpos hsize)
  obtain ⟨-, hchild⟩ := Prod.mk.inj (slot_prepend_one v key id hpos hsize)
  refine hframe.equalBut ?_ fun j hj hne => ?_
  · rw [size_withoutFirst _ (by omega)]
    omega
  rw [slot_withoutFirst _ (by omega) (by omega), hmore, hkey, hchild]
  by_cases hzero : j = 0
  · rw [if_pos hzero, hzero]
    rfl
  rw [if_neg hzero, if_pos (by omega), slot_prepend v key id hpos hsize, if_neg (by omega),
    if_neg (by omega), if_pos (by omega), Nat.add_sub_cancel]

/-! ### Neighbours -/

theorem Sound.withKey (h : v.Sound) (i : Nat) (key : K) : (v.withKey i key).Sound := by
  have hsize : (v.withKey i key).size = v.size := size_of_header (by simp)
  exact h.of_same (Same.of_header (by simp)) (hsize ▸ h.size_pos) (hsize ▸ h.size_le)

namespace Neighbours

theorem of_same (h : Neighbours parent left right j) (hleft : Same left left')
    (hright : Same right right') (i : Nat) (key : K) :
    Neighbours (parent.withKey i key) left' right' j := by
  have hparent : Same parent (parent.withKey i key) := Same.of_header (by simp)
  have hsize : (parent.withKey i key).size = parent.size := size_of_header (by simp)
  exact
    { lt_size := by rw [hsize]; exact h.lt_size
      left_child := by rw [child_withKey, hleft.pageId]; exact h.left_child
      left_first := fun k hk => by rw [child_withKey, hleft.pageId]; exact h.left_first k hk
      right_child := by rw [child_withKey, hright.pageId]; exact h.right_child
      left_parent := by rw [hleft.parentId, hparent.pageId]; exact h.left_parent
      right_parent := by rw [hright.parentId, hparent.pageId]; exact h.right_parent }

/-- The first child of the right node goes over and comes back. -/
theorem lendFirst_back (h : Neighbours parent left right j) (hl : left.Sound) (hr : right.Sound)
    (hp : parent.Sound) (hmany : 2 ≤ right.size) (hfull : right.size ≤ right.maxSize)
    (hroom : left.size < left.maxSize) :
    ∃ left' right' parent' left'',
      Family.lendFirst ⟨right, left, parent⟩ = .ok () ⟨right', left', parent'⟩ ∧
        Family.lendLast (j + 1) ⟨left', right', parent'⟩ = .ok () ⟨left'', right, parent⟩ ∧
          EqualBut left.size left left'' := by
  have hmax := hl.maxSize_lt
  have hmaxr := hr.maxSize_lt
  have hpos := hl.size_pos
  have hin := h.lt_capacity hp
  have hleft : Same left (left.push (parent.key (j + 1), right.child 0)) := same_push _ _
  have hright : Same right right.withoutFirst := same_withoutFirst _
  have hsizel := size_push left (parent.key (j + 1), right.child 0) (by omega)
  have hsizer := size_withoutFirst right hr.size_le_capacity
  have hnext := h.of_same hleft hright (j + 1) (right.key 1)
  have hback := Family.lendLast_eq (hl.of_same hleft (by omega) (by omega))
    (hr.of_same hright (by omega) (by omega))
    (hp.withKey (j + 1) (right.key 1)) (by omega) (by rw [hright.maxSize]; omega)
    hnext.right_parent.symm hnext.lt_size hnext.right_child
  -- The child that crossed stands in the last slot of the left node, under the old separator.
  obtain ⟨hkey, hchild⟩ := Prod.mk.inj
    (slot_push_size left (parent.key (j + 1), right.child 0) (by omega))
  rw [hsizel, Nat.add_sub_cancel, hkey, hchild, key_withKey _ _ (spans_slot hin), if_pos rfl,
    prepend_withoutFirst right hmany hr.size_le_capacity, withKey_withKey parent hin] at hback
  exact ⟨_, _, _, _, Family.lendFirst_eq hr hl hp hmany hroom h.left_parent.symm
    (h.childIndex_eq hp) h.lt_size, hback, equalBut_setSize_push left (by omega) _⟩

/-- The last child of the left node goes over and comes back. -/
theorem lendLast_back (h : Neighbours parent left right j) (hl : left.Sound) (hr : right.Sound)
    (hp : parent.Sound) (hmany : 2 ≤ left.size) (hfull : left.size ≤ left.maxSize)
    (hroom : right.size < right.maxSize) :
    ∃ left' right' parent' right'',
      Family.lendLast (j + 1) ⟨left, right, parent⟩ = .ok () ⟨left', right', parent'⟩ ∧
        Family.lendFirst ⟨right', left', parent'⟩ = .ok () ⟨right'', left, parent⟩ ∧
          EqualBut right.size right right'' := by
  have hmax := hl.maxSize_lt
  have hmaxr := hr.maxSize_lt
  have hpos := hr.size_pos
  have hin := h.lt_capacity hp
  have hleft : Same left (left.setSize (left.size - 1)) := (Same.refl left).setSize _
  have hright : Same right (right.prepend (parent.key (j + 1)) (left.child (left.size - 1))) :=
    same_prepend _ _ _
  have hsizel : (left.setSize (left.size - 1)).size = left.size - 1 := size_setSize (by omega) left
  have hsizer := size_prepend right (by omega) (parent.key (j + 1)) (left.child (left.size - 1))
  have hsound := hp.withKey (j + 1) (left.key (left.size - 1))
  have hnext := h.of_same hleft hright (j + 1) (left.key (left.size - 1))
  have hback := Family.lendFirst_eq (hr.of_same hright (by omega) (by omega))
    (hl.of_same hleft (by omega) (by omega)) hsound (by omega)
    (by rw [hleft.maxSize]; omega) hnext.left_parent.symm (hnext.childIndex_eq hsound)
    hnext.lt_size
  -- The child that crossed is the first one of the right node; the old separator is behind it.
  obtain ⟨-, hchild⟩ := Prod.mk.inj (slot_prepend_zero right (parent.key (j + 1))
    (left.child (left.size - 1)) hpos (by omega))
  obtain ⟨hkey, -⟩ := Prod.mk.inj (slot_prepend_one right (parent.key (j + 1))
    (left.child (left.size - 1)) hpos (by omega))
  rw [hkey, hchild, key_withKey _ _ (spans_slot hin), if_pos rfl, withKey_withKey parent hin,
    push_setSize left (by omega) hl.size_le_capacity] at hback
  exact ⟨_, _, _, _, Family.lendLast_eq hl hr hp hmany hroom h.right_parent.symm h.lt_size
    h.right_child, hback, equalBut_withoutFirst_prepend right hpos (by omega) _ _⟩

/-- A child that is lent to the neighbour and lent back leaves the node that gave it and the parent
as they were, to the byte.  The node that had it for a while keeps it only in the one slot behind
its last one. -/
theorem borrowed_back (h : Neighbours parent left right j) (hl : left.Sound) (hr : right.Sound)
    (hp : parent.Sound) :
    (2 ≤ right.size → right.size ≤ right.maxSize → left.size < left.maxSize →
      ∃ left' right' parent' left'',
        Family.lendFirst ⟨right, left, parent⟩ = .ok () ⟨right', left', parent'⟩ ∧
          Family.lendLast (j + 1) ⟨left', right', parent'⟩ = .ok () ⟨left'', right, parent⟩ ∧
            EqualBut left.size left left'') ∧
    (2 ≤ left.size → left.size ≤ left.maxSize → right.size < right.maxSize →
      ∃ left' right' parent' right'',
        Family.lendLast (j + 1) ⟨left, right, parent⟩ = .ok () ⟨left', right', parent'⟩ ∧
          Family.lendFirst ⟨right', left', parent'⟩ = .ok () ⟨right'', left, parent⟩ ∧
            EqualBut right.size right right'') :=
  ⟨h.lendFirst_back hl hr hp, h.lendLast_back hl hr hp⟩

/-- Both ways between two nodes that stand behind another child of their parent. -/
theorem borrowed_back_lower_upper :
    (∃ left' right' parent' left'',
      Family.lendFirst ⟨upper, lower 3, above⟩ = .ok () ⟨right', left', parent'⟩ ∧
        Family.lendLast 2 ⟨left', right', parent'⟩ = .ok () ⟨left'', upper, above⟩ ∧
          EqualBut 2 (lower 3) left'') ∧
    ∃ left' right' parent' right'',
      Family.lendLast 2 ⟨lower 3, upper, above⟩ = .ok () ⟨left', right', parent'⟩ ∧
        Family.lendFirst ⟨right', left', parent'⟩ = .ok () ⟨right'', lower 3, above⟩ ∧
          EqualBut 2 upper right'' := by
  have hmax : 3 < capacity UInt32 := by decide
  obtain ⟨hslotsl, hmaxl⟩ := lower_slots hmax
  obtain ⟨hslotsr, hmaxr⟩ := upper_slots
  have hsizel : (lower 3).size = 2 := size_of_slots hslotsl
  have hsizer : upper.size = 2 := size_of_slots hslotsr
  obtain ⟨hleft, hright⟩ := (lower_upper hmax).borrowed_back (lower_sound (by decide)) upper_sound
    above_sound
  rw [hsizel, hsizer, hmaxl, hmaxr] at hleft hright
  exact ⟨hleft (by decide) (by decide) (by decide), hright (by decide) (by decide) (by decide)⟩

end Neighbours

end Node

end PagedIndex
