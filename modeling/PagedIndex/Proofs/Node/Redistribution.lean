import PagedIndex.Key.Integer
import PagedIndex.Proofs.Node.Neighbours
import PagedIndex.Proofs.Node.Routing

/-! # Borrowing keeps the row of slots

Two neighbours are read as one row: the children of the left node and then those of the right one,
and between the separators of the two the one that stands in their parent.  A borrowed child moves
over that place in the row, and nothing else moves.  Since the key that goes up and the child that
goes across come from different slots, children and separators are followed on their own
(`KeepsRow`), first on lists of slots and then on the nodes.  `Neighbours.redistributed` is the
statement for both directions, on nodes with any keys and any other children. -/

namespace PagedIndex

variable {K : Type}

/-! ### Rows of two lists -/

/-- From slots `l` and `r` with `key` between them to `l'` and `r'` with `key'` between them, the
children and the separators stay the same in their order. -/
structure KeepsRow (l r : List (K × PageId)) (key : K) (l' r' : List (K × PageId)) (key' : K) :
    Prop where
  children : (l' ++ r').map Prod.snd = (l ++ r).map Prod.snd
  separators : separators l' ++ key' :: separators r' = separators l ++ key :: separators r

namespace KeepsRow

variable {l r : List (K × PageId)} {x y : K × PageId} {key : K}

/-- The first child of the right list goes to the end of the left one. -/
theorem leftward (hl : l ≠ []) :
    KeepsRow l (x :: y :: r) key (l ++ [(key, x.2)]) ((x.1, y.2) :: r) y.1 where
  children := by simp
  separators := by
    rw [separators_concat hl, List.append_assoc]
    rfl

/-- The last child of the left list goes to the front of the right one. -/
theorem rightward (hl : l ≠ []) :
    KeepsRow (l ++ [y]) (x :: r) key l ((x.1, y.2) :: (key, x.2) :: r) y.1 where
  children := by simp
  separators := by
    rw [separators_concat hl, List.append_assoc]
    rfl

end KeepsRow

/-! ### Neighbours under a parent -/

namespace Node

variable [Key K] {parent left right : Node K} {j : Nat}

/-- The slots `j` and `j + 1` of `parent` point at `left` and `right`, no slot in front of them
points at `left`, and both nodes name the parent. -/
structure Neighbours (parent left right : Node K) (j : Nat) : Prop where
  lt_size : j + 1 < parent.size
  left_child : parent.child j = left.pageId
  left_first : ∀ i < j, parent.child i ≠ left.pageId
  right_child : parent.child (j + 1) = right.pageId
  left_parent : left.parentId = parent.pageId
  right_parent : right.parentId = parent.pageId

/-- One child has moved between two nodes and `moved` has become the separator in slot `i` of the
parent; nothing else of the parent has changed. -/
structure Redistributed (i : Nat) (moved : K) (left right parent left' right' parent' : Node K) :
    Prop where
  row : KeepsRow left.slots right.slots (parent.key i) left'.slots right'.slots (parent'.key i)
  parent_eq : parent' = parent.withKey i moved
  parent_slots : parent'.slots = parent.slots.set i (moved, parent.child i)
  left_same : Same left left'
  right_same : Same right right'

namespace Neighbours

theorem childIndex_eq (h : Neighbours parent left right j) (hp : parent.Sound) :
    parent.childIndex left.pageId = .ok j :=
  childIndex_first hp.size_le_capacity (Nat.lt_of_succ_lt h.lt_size) h.left_child h.left_first

theorem lt_capacity (h : Neighbours parent left right j) (hp : parent.Sound) :
    j + 1 < capacity K := Nat.lt_of_lt_of_le h.lt_size hp.size_le_capacity

theorem of_row (h : Neighbours parent left right j) (hp : parent.Sound) {moved : K}
    {left' right' : Node K} (hleft : Same left left') (hright : Same right right')
    (hrow : KeepsRow left.slots right.slots (parent.key (j + 1)) left'.slots right'.slots moved) :
    Redistributed (j + 1) moved left right parent left' right'
      (parent.withKey (j + 1) moved) where
  row := by rwa [key_withKey parent moved (spans_slot (h.lt_capacity hp)), if_pos rfl]
  parent_eq := rfl
  parent_slots := slots_withKey parent moved (h.lt_capacity hp)
  left_same := hleft
  right_same := hright

theorem lendFirst_redistributed (h : Neighbours parent left right j) (hl : left.Sound)
    (hr : right.Sound) (hp : parent.Sound) (hmany : 2 ≤ right.size)
    (hroom : left.size < left.maxSize) :
    ∃ left' right' parent',
      Family.lendFirst ⟨right, left, parent⟩ = .ok () ⟨right', left', parent'⟩ ∧
        Redistributed (j + 1) (right.key 1) left right parent left' right' parent' ∧
        left'.size = left.size + 1 ∧ right'.size + 1 = right.size := by
  have hmax := hl.maxSize_lt
  obtain ⟨x, y, r, hslots⟩ := exists_cons_cons hmany
  have hzero : right.slot 0 = x := slot_at (a := []) hslots
  have hone : right.slot 1 = y := slot_at (a := [x]) hslots
  obtain ⟨-, hfirst⟩ := Prod.mk.inj hzero
  obtain ⟨hkey, -⟩ := Prod.mk.inj hone
  have hpush := slots_push left (parent.key (j + 1), x.2) (by omega)
  have hdrop := slots_withoutFirst hr.size_le_capacity hslots
  refine ⟨_, _, _, Family.lendFirst_eq hr hl hp hmany hroom h.left_parent.symm
    (h.childIndex_eq hp) h.lt_size, h.of_row hp (same_push _ _) (same_withoutFirst _) ?_, ?_, ?_⟩
  · rw [hfirst, hpush, hdrop, hslots, hkey]
    exact KeepsRow.leftward hl.slots_ne_nil
  · exact size_push _ _ (by omega)
  · rw [size_withoutFirst right hr.size_le_capacity]
    omega

theorem lendLast_redistributed (h : Neighbours parent left right j) (hl : left.Sound)
    (hr : right.Sound) (hp : parent.Sound) (hmany : 2 ≤ left.size)
    (hroom : right.size < right.maxSize) :
    ∃ left' right' parent',
      Family.lendLast (j + 1) ⟨left, right, parent⟩ = .ok () ⟨left', right', parent'⟩ ∧
        Redistributed (j + 1) (left.key (left.size - 1)) left right parent left' right' parent' ∧
        left'.size + 1 = left.size ∧ right'.size = right.size + 1 := by
  have hmax := hr.maxSize_lt
  have hcapacity := hl.size_le_capacity
  obtain ⟨c, s, hslots⟩ := hl.exists_snoc
  obtain ⟨x, r, hslots'⟩ := hr.exists_cons
  have hsize := size_at hslots
  rw [List.length_nil, Nat.zero_add] at hsize
  have hlast : left.size - 1 = c.length := by omega
  have hne : c ≠ [] := List.length_pos_iff.mp (by omega)
  obtain ⟨hkey, hchild⟩ := Prod.mk.inj (slot_at hslots)
  have htake : (left.setSize (left.size - 1)).slots = c := by
    rw [slots_setSize left (by omega) hcapacity, hlast, hslots, List.take_left' rfl]
  have hprepend := slots_prepend right (parent.key (j + 1)) s.2 (by omega) hslots'
  refine ⟨_, _, _, Family.lendLast_eq hl hr hp hmany hroom h.right_parent.symm h.lt_size
    h.right_child, h.of_row hp ((Same.refl left).setSize _) (same_prepend _ _ _) ?_, ?_, ?_⟩
  · rw [htake, hlast, hchild, hkey, hprepend, hslots, hslots']
    exact KeepsRow.rightward hne
  · rw [size_of_slots htake, hsize]
  · exact size_prepend _ (by omega) _ _

/-- Borrowing between neighbours goes through when one of them can spare a child and the other has
room, and then the row of their slots is kept: one node gains a slot, the other one loses one, and
in the parent the key between them becomes the one that moved. -/
theorem redistributed (h : Neighbours parent left right j) (hl : left.Sound) (hr : right.Sound)
    (hp : parent.Sound) :
    (2 ≤ right.size → left.size < left.maxSize →
      ∃ left' right' parent',
        Family.lendFirst ⟨right, left, parent⟩ = .ok () ⟨right', left', parent'⟩ ∧
          Redistributed (j + 1) (right.key 1) left right parent left' right' parent' ∧
          left'.size = left.size + 1 ∧ right'.size + 1 = right.size) ∧
    (2 ≤ left.size → right.size < right.maxSize →
      ∃ left' right' parent',
        Family.lendLast (j + 1) ⟨left, right, parent⟩ = .ok () ⟨left', right', parent'⟩ ∧
          Redistributed (j + 1) (left.key (left.size - 1)) left right parent left' right' parent' ∧
          left'.size + 1 = left.size ∧ right'.size = right.size + 1) :=
  ⟨h.lendFirst_redistributed hl hr hp, h.lendLast_redistributed hl hr hp⟩

/-- Two nodes and their parent, in which another child stands in front of them. -/
def lower (maxSize : Nat) : Node UInt32 := ofSlots ⟨2⟩ ⟨1⟩ maxSize [(0, ⟨10⟩), (10, ⟨11⟩)]

def upper : Node UInt32 := ofSlots ⟨3⟩ ⟨1⟩ 3 [(7, ⟨12⟩), (30, ⟨13⟩)]

def above : Node UInt32 := ofSlots ⟨1⟩ ⟨0⟩ 3 [(0, ⟨9⟩), (5, ⟨2⟩), (20, ⟨3⟩)]

theorem lower_sound {maxSize : Nat} (h : 2 ≤ maxSize ∧ maxSize < capacity UInt32) :
    (lower maxSize).Sound := ofSlots_sound _ _ _ _ h ⟨by decide, Nat.le_succ_of_le h.1⟩

theorem upper_sound : upper.Sound := ofSlots_sound _ _ _ _ (by decide) (by decide)

theorem above_sound : above.Sound := ofSlots_sound _ _ _ _ (by decide) (by decide)

theorem lower_slots {maxSize : Nat} (h : maxSize < capacity UInt32) :
    (lower maxSize).slots = [(0, ⟨10⟩), (10, ⟨11⟩)] ∧ (lower maxSize).maxSize = maxSize := by
  obtain ⟨hslots, hmaxSize, -⟩ :=
    ofSlots_eq (K := UInt32) ⟨2⟩ ⟨1⟩ maxSize [(0, ⟨10⟩), (10, ⟨11⟩)] h (by decide)
  exact ⟨hslots, hmaxSize⟩

theorem upper_slots : upper.slots = [(7, ⟨12⟩), (30, ⟨13⟩)] ∧ upper.maxSize = 3 := by
  obtain ⟨hslots, hmaxSize, -⟩ :=
    ofSlots_eq (K := UInt32) ⟨3⟩ ⟨1⟩ 3 [(7, ⟨12⟩), (30, ⟨13⟩)] (by decide) (by decide)
  exact ⟨hslots, hmaxSize⟩

theorem above_slots : above.slots = [(0, ⟨9⟩), (5, ⟨2⟩), (20, ⟨3⟩)] :=
  (ofSlots_eq _ _ _ _ (by decide) (by decide)).1

theorem above_neighbours {left right : Node UInt32} (hidl : left.pageId = ⟨2⟩)
    (hidr : right.pageId = ⟨3⟩) (hparentl : left.parentId = ⟨1⟩) (hparentr : right.parentId = ⟨1⟩) :
    Neighbours above left right 1 := by
  obtain ⟨hslots, -, hidp, -⟩ :=
    ofSlots_eq (K := UInt32) ⟨1⟩ ⟨0⟩ 3 [(0, ⟨9⟩), (5, ⟨2⟩), (20, ⟨3⟩)] (by decide) (by decide)
  have hzero : above.slot 0 = (0, ⟨9⟩) := slot_at (a := []) hslots
  have hone : above.slot 1 = (5, ⟨2⟩) := slot_at (a := [(0, ⟨9⟩)]) hslots
  have htwo : above.slot 2 = (20, ⟨3⟩) := slot_at (a := [(0, ⟨9⟩), (5, ⟨2⟩)]) hslots
  obtain ⟨-, hchild⟩ := Prod.mk.inj hzero
  exact
    { lt_size := by rw [size_of_slots above_slots]; decide
      left_child := (congrArg Prod.snd hone).trans hidl.symm
      left_first := by
        intro i hi
        obtain rfl : i = 0 := by omega
        rw [hchild, hidl]
        decide
      right_child := (congrArg Prod.snd htwo).trans hidr.symm
      left_parent := hparentl.trans hidp.symm
      right_parent := hparentr.trans hidp.symm }

theorem lower_upper {maxSize : Nat} (h : maxSize < capacity UInt32) :
    Neighbours above (lower maxSize) upper 1 := by
  obtain ⟨-, -, hidl, hparentl⟩ :=
    ofSlots_eq (K := UInt32) ⟨2⟩ ⟨1⟩ maxSize [(0, ⟨10⟩), (10, ⟨11⟩)] h (by decide)
  obtain ⟨-, -, hidr, hparentr⟩ :=
    ofSlots_eq (K := UInt32) ⟨3⟩ ⟨1⟩ 3 [(7, ⟨12⟩), (30, ⟨13⟩)] (by decide) (by decide)
  exact above_neighbours hidl hidr hparentl hparentr

/-- The two nodes exchange a child in each direction; the placeholder 7 stays where it is. -/
theorem redistributed_lower_upper :
    (∃ left right parent,
      Family.lendFirst ⟨upper, lower 3, above⟩ = .ok () ⟨right, left, parent⟩ ∧
        (left.slots ++ right.slots).map Prod.snd = [⟨10⟩, ⟨11⟩, ⟨12⟩, ⟨13⟩] ∧
        separators left.slots ++ parent.key 2 :: separators right.slots = [10, 20, 30] ∧
        left.size = 3 ∧ parent.slots = [(0, ⟨9⟩), (5, ⟨2⟩), (30, ⟨3⟩)]) ∧
    ∃ left right parent,
      Family.lendLast 2 ⟨lower 3, upper, above⟩ = .ok () ⟨left, right, parent⟩ ∧
        (left.slots ++ right.slots).map Prod.snd = [⟨10⟩, ⟨11⟩, ⟨12⟩, ⟨13⟩] ∧
        separators left.slots ++ parent.key 2 :: separators right.slots = [10, 20, 30] ∧
        right.size = 3 ∧ parent.slots = [(0, ⟨9⟩), (5, ⟨2⟩), (10, ⟨3⟩)] := by
  have hthree : 3 < capacity UInt32 := by decide
  obtain ⟨hslotsl, hmaxl⟩ := lower_slots hthree
  obtain ⟨hslotsr, hmaxr⟩ := upper_slots
  have htwo : above.slot 2 = (20, ⟨3⟩) := slot_at (a := [(0, ⟨9⟩), (5, ⟨2⟩)]) above_slots
  have hlast : (lower 3).slot 1 = (10, ⟨11⟩) := slot_at (a := [(0, ⟨10⟩)]) hslotsl
  have hsecond : upper.slot 1 = (30, ⟨13⟩) := slot_at (a := [(7, ⟨12⟩)]) hslotsr
  obtain ⟨hkey, hchild⟩ := Prod.mk.inj htwo
  obtain ⟨hkeyl, -⟩ := Prod.mk.inj hlast
  obtain ⟨hkeyr, -⟩ := Prod.mk.inj hsecond
  have hsizel : (lower 3).size = 2 := size_of_slots hslotsl
  have hsizer : upper.size = 2 := size_of_slots hslotsr
  obtain ⟨hleft, hright⟩ := (lower_upper hthree).redistributed
    (lower_sound (by decide)) upper_sound above_sound
  refine ⟨?_, ?_⟩
  · obtain ⟨left, right, parent, hrun, hdone, hsize, -⟩ := hleft (by omega) (by omega)
    refine ⟨left, right, parent, hrun, ?_, ?_, by omega, ?_⟩
    · rw [hdone.row.children, hslotsl, hslotsr]
      rfl
    · rw [hdone.row.separators, hkey, hslotsl, hslotsr]
      rfl
    · rw [hdone.parent_slots, hkeyr, hchild, above_slots]
      rfl
  · obtain ⟨left, right, parent, hrun, hdone, -, hsize⟩ := hright (by omega) (by omega)
    refine ⟨left, right, parent, hrun, ?_, ?_, by omega, ?_⟩
    · rw [hdone.row.children, hslotsl, hslotsr]
      rfl
    · rw [hdone.row.separators, hkey, hslotsl, hslotsr]
      rfl
    · rw [hdone.parent_slots, hsizel, hkeyl, hchild, above_slots]
      rfl

end Neighbours

end Node

end PagedIndex
