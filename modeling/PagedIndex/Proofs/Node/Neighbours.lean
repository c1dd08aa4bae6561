import PagedIndex.Node.Siblings
import PagedIndex.Proofs.Node.Edits

/-! # Operations on neighbours as list operations

Splitting cuts the list of slots in two.  Borrowing and merging move slots over the separator of
the two nodes in their parent: a first child goes to the left under that separator, an old first
child goes to the right under it, and the key that loses its place becomes the separator.  Each
operation is stated with the nodes that it leaves (`moveHalf_eq`, `lendFirst_eq`, `lendLast_eq`,
`mergeInto_eq`), and then as operations on lists. -/

namespace PagedIndex

open PagedIndex.Action Node Node.Edit

attribute [local irreducible] Ends

variable {K : Type} [Key K] {v recipient parent : Node K} {a b l : List (K × PageId)}
variable {e x y : K × PageId} {key : K} {id : PageId}

namespace Node

/-- A child stored in front of the first one, which moves under a key. -/
def prepend (v : Node K) (key : K) (id : PageId) : Node K :=
  (((v.copied v 0 v.size 1).withKey 1 key).withChild 0 id).setSize (v.size + 1)

theorem same_prepend (v : Node K) (key : K) (id : PageId) : Same v (v.prepend key id) :=
  (Same.of_header (by simp)).setSize _

theorem size_prepend (v : Node K) (h : v.size < capacity K) (key : K) (id : PageId) :
    (v.prepend key id).size = v.size + 1 := size_setSize h _

theorem slot_prepend (v : Node K) (key : K) (id : PageId) (hpos : 1 ≤ v.size)
    (h : v.size < capacity K) {j : Nat} :
    (v.prepend key id).slot j =
      if j = 0 then (v.key 0, id) else if j = 1 then (key, v.child 0)
      else if j ≤ v.size then v.slot (j - 1) else v.slot j := by
  have hcopied : ∀ j, (v.copied v 0 v.size 1).slot j =
      if 1 ≤ j ∧ j < 1 + (v.size - 0) then v.slot (0 + (j - 1)) else v.slot j := fun j =>
    slot_copied v v (Nat.zero_le _) (slotStart_le_pageSize (by omega))
  rw [prepend, slot_setSize, slot_withChild _ (by omega), slot_withKey _ (by omega)]
  by_cases hzero : j = 0
  · have hkey := congrArg Prod.fst (hcopied 0)
    rw [if_neg (by omega)] at hkey
    rw [if_pos hzero, if_pos hzero, key_withKey _ _ (spans_slot (by omega)), if_neg (by omega),
      hzero]
    exact Prod.ext hkey rfl
  rw [if_neg hzero, if_neg hzero]
  by_cases hone : j = 1
  · have hchild := congrArg Prod.snd (hcopied 1)
    rw [if_pos (by omega)] at hchild
    rw [if_pos hone, if_pos hone, hone]
    exact Prod.ext rfl hchild
  rw [if_neg hone, if_neg hone, hcopied, Nat.zero_add]
  by_cases hin : j ≤ v.size
  · rw [if_pos (by omega), if_pos hin]
  · rw [if_neg (by omega), if_neg hin]

theorem slot_prepend_zero (v : Node K) (key : K) (id : PageId) (hpos : 1 ≤ v.size)
    (h : v.size < capacity K) : (v.prepend key id).slot 0 = (v.key 0, id) :=
  (slot_prepend v key id hpos h).trans (if_pos rfl)

theorem slot_prepend_one (v : Node K) (key : K) (id : PageId) (hpos : 1 ≤ v.size)
    (h : v.size < capacity K) : (v.prepend key id).slot 1 = (key, v.child 0) :=
  (slot_prepend v key id hpos h).trans ((if_neg Nat.one_ne_zero).trans (if_pos rfl))

theorem slots_prepend (v : Node K) (key : K) (id : PageId) (h : v.size < capacity K)
    (hslots : v.slots = x :: l) : (v.prepend key id).slots = (x.1, id) :: (key, x.2) :: l := by
  have hlen := size_of_slots hslots
  rw [List.length_cons] at hlen
  obtain ⟨hkey, hchild⟩ := Prod.mk.inj (slot_at (a := []) hslots)
  refine slots_eq (by rw [size_prepend v h]; simp; omega) fun j hj => ?_
  rw [List.length_cons, List.length_cons] at hj
  rw [slot_prepend v key id (by omega) h]
  match j with
  | 0 => exact congrArg (·, id) hkey
  | 1 => exact congrArg (key, ·) hchild
  | j + 2 =>
      rw [if_neg (by omega), if_neg (by omega), if_pos (by omega),
        slot_of_slots hslots (by simp; omega)]
      rfl

/-- The first child is dropped; the second one takes its place under the first key. -/
def withoutFirst (v : Node K) : Node K := (v.withChild 0 (v.child 1)).erased 1

theorem same_withoutFirst (v : Node K) : Same v v.withoutFirst :=
  (Same.of_header (by simp)).trans (same_erased _ 1)

theorem size_withoutFirst (v : Node K) (hsize : v.size ≤ capacity K) :
    v.withoutFirst.size = v.size - 1 := by
  have hkept : (v.withChild 0 (v.child 1)).size = v.size := size_of_header (by simp)
  rw [withoutFirst, erased, hkept, size_setSize (by omega)]

theorem slot_withoutFirst (v : Node K) (hmany : 2 ≤ v.size) (hsize : v.size ≤ capacity K)
    {j : Nat} :
    v.withoutFirst.slot j =
      if j = 0 then (v.key 0, v.child 1) else if j + 1 < v.size then v.slot (j + 1)
      else v.slot j := by
  have hkept : (v.withChild 0 (v.child 1)).size = v.size := size_of_header (by simp)
  rw [withoutFirst, erased, hkept, slot_setSize,
    slot_copied _ _ (by omega) (slotStart_le_pageSize (by omega)), slot_withChild _ (by omega),
    slot_withChild _ (by omega)]
  by_cases hzero : j = 0
  · rw [if_neg (by omega), if_pos hzero, if_pos hzero, hzero]
  rw [if_neg (show ¬1 + 1 + (j - 1) = 0 by omega), if_neg hzero, if_neg hzero]
  by_cases hin : j + 1 < v.size
  · rw [if_pos (by omega), if_pos hin]
    exact congrArg v.slot (by omega)
  · rw [if_neg (by omega), if_neg hin]

theorem slots_withoutFirst (hsize : v.size ≤ capacity K) (hslots : v.slots = x :: y :: l) :
    v.withoutFirst.slots = (x.1, y.2) :: l := by
  have hlen := size_of_slots hslots
  have hone : v.slot 1 = y := slot_at (a := [x]) hslots
  have hchild : v.child 1 = y.2 := congrArg Prod.snd hone
  have hstored : (v.withChild 0 (v.child 1)).slots = (x.1, y.2) :: y :: l := by
    rw [hchild]
    exact slots_withChild_at (a := []) hsize hslots y.2
  have hkept : (v.withChild 0 (v.child 1)).size = v.size := size_of_header (by simp)
  rw [List.length_cons, List.length_cons] at hlen
  rw [withoutFirst, slots_erased _ (by omega) (by omega), hstored]
  rfl

end Node

/-! ### Splitting -/

namespace Split

/-- The upper half of the slots is moved. -/
theorem moveHalf_eq (hv : v.Sound) (hr : recipient.Sound) (hone : recipient.size = 1)
    (hfit : v.size / 2 ≤ recipient.maxSize) :
    moveHalf ⟨v, recipient⟩ =
      .ok () ⟨v.setSize (v.size - v.size / 2), recipient.filled v (v.size - v.size / 2)⟩ := by
  have hmoved : v.size - (v.size - v.size / 2) = v.size / 2 := by omega
  have hstart : v.size - v.size / 2 ≤ v.size := Nat.sub_le _ _
  have hfill := fill_eq hr hone hstart (by omega)
  rw [hmoved] at hfill
  apply Ends.eq_ok
  simp only [moveHalf, onRecipient, onNode, resize, ends_bind, ends_get, ends_zoom, ends_modify,
    ends_answer (readSlots_eq v (Nat.sub_le _ (v.size / 2)) hv.size_le_capacity)]
  rw [ends_of_eq hfill]
  exact ⟨trivial, rfl⟩

theorem moveHalf_answers (hv : v.Sound) (hr : recipient.Sound) (hone : recipient.size = 1)
    (hfit : v.size / 2 ≤ recipient.maxSize) :
    moveHalf.Answers ⟨v, recipient⟩ fun _ s =>
      Same v s.node ∧ Same recipient s.recipient ∧
        s.node.slots = v.slots.take (v.size - v.size / 2) ∧
        s.recipient.slots = v.slots.drop (v.size - v.size / 2) := by
  have hmax := hr.maxSize_lt
  exact ⟨(), _, moveHalf_eq hv hr hone hfit, (Same.refl v).setSize _, same_filled _ _ _,
    slots_setSize v (by omega) hv.size_le_capacity, slots_filled (by omega) (by omega)⟩

end Split

/-! ### Borrowing -/

namespace Pair

theorem takeLast_eq (hv : v.Sound) (hp : parent.Sound) (hroom : v.size < v.maxSize)
    (hfamily : parent.pageId = v.parentId) {i : Nat}
    (hindex : parent.childIndex v.pageId = .ok i) (hi : i + 1 < parent.size) :
    takeLast key id ⟨v, parent⟩ =
      .ok () ⟨v.push (parent.key (i + 1), id), parent.withKey (i + 1) key⟩ := by
  have hmax := hv.maxSize_lt
  have hcapacity := hp.size_le_capacity
  apply Ends.eq_ok
  simp only [takeLast, onNode, onParent, resize, ends_bind, ends_get, ends_zoom, ends_modify,
    ends_require, ends_answer hindex,
    ends_answer (readKey_eq parent (show i + 1 < capacity K by omega))]
  refine ⟨fun _ => ⟨fun _ => ⟨fun _ => ?_, fun hno => hno hi⟩, fun hno => hno hfamily⟩,
    fun hno => hno hroom⟩
  apply putKey_ends (by omega)
  apply putChild_ends (by omega)
  apply putKey_ends (by omega)
  exact ⟨trivial, rfl⟩

theorem takeFirst_eq (hv : v.Sound) (hp : parent.Sound) (hroom : v.size < v.maxSize)
    (hfamily : parent.pageId = v.parentId) {i : Nat} (hi : i < parent.size)
    (hchild : parent.child i = v.pageId) :
    takeFirst key id i ⟨v, parent⟩ =
      .ok () ⟨v.prepend (parent.key i) id, parent.withKey i key⟩ := by
  have hmax := hv.maxSize_lt
  have hpos := hv.size_pos
  have hcapacity := hp.size_le_capacity
  apply Ends.eq_ok
  simp only [takeFirst, onNode, onParent, resize, ends_bind, ends_get, ends_zoom, ends_modify,
    ends_require, ends_answer (requireSlot_eq hi), ends_answer (childAt_eq hcapacity hi),
    ends_answer (readKey_eq parent (show i < capacity K by omega))]
  refine ⟨fun _ => ⟨fun _ => ⟨fun _ => ?_, fun hno => hno hchild⟩, fun hno => hno hfamily⟩,
    fun hno => hno hroom⟩
  apply putKey_ends (by omega)
  apply shift_ends hv.size_le_capacity (by omega) (by omega)
  apply putKey_ends (by omega)
  apply putChild_ends (by omega)
  exact ⟨trivial, rfl⟩

end Pair

namespace Family

/-- The first child goes to the left neighbour, at which the parent points from slot `i`. -/
theorem lendFirst_eq (hv : v.Sound) (hr : recipient.Sound) (hp : parent.Sound)
    (hmany : 1 < v.size) (hroom : recipient.size < recipient.maxSize)
    (hfamily : parent.pageId = recipient.parentId) {i : Nat}
    (hindex : parent.childIndex recipient.pageId = .ok i) (hi : i + 1 < parent.size) :
    lendFirst ⟨v, recipient, parent⟩ =
      .ok () ⟨v.withoutFirst, recipient.push (parent.key (i + 1), v.child 0),
        parent.withKey (i + 1) (v.key 1)⟩ := by
  have hcapacity := hv.size_le_capacity
  have hsize : (v.withChild 0 (v.child 1)).size = v.size := size_of_header (by simp)
  apply Ends.eq_ok
  simp only [lendFirst, onNode, onReceivers, ends_bind, ends_get, ends_zoom, ends_require,
    ends_answer (readKey_eq v (show 1 < capacity K by omega)),
    ends_answer (readChild_eq v (show 0 < capacity K by omega)),
    ends_answer (readChild_eq v (show 1 < capacity K by omega))]
  refine ⟨fun _ => ?_, fun hno => hno hmany⟩
  rw [ends_of_eq (Pair.takeLast_eq hr hp hroom hfamily hindex hi)]
  apply putChild_ends (by omega)
  rw [ends_of_eq (erase_eq (by omega) (by omega))]
  exact ⟨trivial, rfl⟩

/-- The last child goes to the right neighbour, at which the parent points from slot `i`. -/
theorem lendLast_eq (hv : v.Sound) (hr : recipient.Sound) (hp : parent.Sound)
    (hmany : 1 < v.size) (hroom : recipient.size < recipient.maxSize)
    (hfamily : parent.pageId = recipient.parentId) {i : Nat} (hi : i < parent.size)
    (hchild : parent.child i = recipient.pageId) :
    lendLast i ⟨v, recipient, parent⟩ =
      .ok () ⟨v.setSize (v.size - 1), recipient.prepend (parent.key i) (v.child (v.size - 1)),
        parent.withKey i (v.key (v.size - 1))⟩ := by
  have hcapacity := hv.size_le_capacity
  apply Ends.eq_ok
  simp only [lendLast, onNode, onReceivers, resize, ends_bind, ends_get, ends_zoom, ends_modify,
    ends_require, ends_answer (readKey_eq v (show v.size - 1 < capacity K by omega)),
    ends_answer (readChild_eq v (show v.size - 1 < capacity K by omega))]
  refine ⟨fun _ => ?_, fun hno => hno hmany⟩
  rw [ends_of_eq (Pair.takeFirst_eq hr hp hroom hfamily hi hchild)]
  exact ⟨trivial, rfl⟩

theorem lendFirst_answers (hv : v.Sound) (hr : recipient.Sound) (hp : parent.Sound)
    (hroom : recipient.size < recipient.maxSize) (hfamily : parent.pageId = recipient.parentId)
    (hslots : parent.slots = a ++ x :: y :: b) (hx : x.2 = recipient.pageId)
    (hfirst : x.2 ∉ a.map Prod.snd) {r s : K × PageId} (hnode : v.slots = r :: s :: l) :
    lendFirst.Answers ⟨v, recipient, parent⟩ fun _ t =>
      Same v t.node ∧ Same recipient t.recipient ∧ Same parent t.parent ∧
        t.node.slots = (r.1, s.2) :: l ∧ t.recipient.slots = recipient.slots ++ [(y.1, r.2)] ∧
        t.parent.slots = a ++ x :: (s.1, y.2) :: b := by
  have hmax := hr.maxSize_lt
  have hcapacity := hv.size_le_capacity
  have hsize := size_of_slots hnode
  have hleft : parent.slots = (a ++ [x]) ++ y :: b := by rw [hslots, List.append_cons]
  have hparent := size_at hleft
  have hkey : parent.key (a ++ [x]).length = y.1 := congrArg Prod.fst (slot_at hleft)
  have hset := slots_withKey_at hp.size_le_capacity hleft s.1
  rw [List.length_append, List.length_singleton] at hparent hkey hset
  have hindex : parent.childIndex recipient.pageId = .ok a.length := by
    rw [← hx]
    exact childIndex_eq hp.size_le_capacity hslots hfirst
  have hone : v.slot 1 = s := slot_at (a := [r]) hnode
  have hzero : v.slot 0 = r := slot_at (a := []) hnode
  obtain ⟨hmoved, -⟩ := Prod.mk.inj hone
  obtain ⟨-, hfirstChild⟩ := Prod.mk.inj hzero
  rw [List.length_cons, List.length_cons] at hsize
  refine ⟨(), _, lendFirst_eq hv hr hp (by omega) hroom hfamily hindex (by omega),
    v.same_withoutFirst, recipient.same_push _, Same.of_header (by simp),
    slots_withoutFirst hcapacity hnode, ?_, ?_⟩
  · rw [slots_push _ _ (by omega), hfirstChild, hkey]
  · rw [hmoved, hset, ← List.append_cons]

theorem lendLast_answers (hv : v.Sound) (hr : recipient.Sound) (hp : parent.Sound)
    (hroom : recipient.size < recipient.maxSize) (hfamily : parent.pageId = recipient.parentId)
    (hslots : parent.slots = a ++ y :: b) (hy : y.2 = recipient.pageId) {r s : K × PageId}
    (hrecipient : recipient.slots = r :: l) {c : List (K × PageId)} (hc : c ≠ [])
    (hnode : v.slots = c ++ [s]) :
    (lendLast a.length).Answers ⟨v, recipient, parent⟩ fun _ t =>
      Same v t.node ∧ Same recipient t.recipient ∧ Same parent t.parent ∧
        t.node.slots = c ∧ t.recipient.slots = (r.1, s.2) :: (y.1, r.2) :: l ∧
        t.parent.slots = a ++ (s.1, y.2) :: b := by
  have hmax := hr.maxSize_lt
  have hcapacity := hv.size_le_capacity
  have hsize := size_at hnode
  have hparent := size_at hslots
  obtain ⟨hkey, hchild⟩ := Prod.mk.inj (slot_at hslots)
  have hpos := List.length_pos_iff.mpr hc
  rw [List.length_nil, Nat.zero_add] at hsize
  have hlast : v.size - 1 = c.length := by omega
  obtain ⟨hmoved, hlastChild⟩ := Prod.mk.inj (slot_at hnode)
  refine ⟨(), _, lendLast_eq hv hr hp (by omega) hroom hfamily (by omega) (hchild.trans hy),
    (Same.refl v).setSize _, recipient.same_prepend _ _, Same.of_header (by simp), ?_, ?_, ?_⟩
  · rw [slots_setSize v (by omega) hcapacity, hlast, hnode, List.take_left']
    rfl
  · rw [slots_prepend _ _ _ (by omega) hrecipient, hlast, hlastChild, hkey]
  · rw [hlast, hmoved, slots_withKey_at hp.size_le_capacity hslots]

/-! ### Merging -/

/-- All slots but the first go behind those of the left neighbour. -/
theorem mergeInto_eq (hv : v.Sound) (hr : recipient.Sound) (hp : parent.Sound)
    (hroom : recipient.size + (v.size - 1) ≤ recipient.maxSize)
    (hfamily : parent.pageId = v.parentId) {i : Nat} (hi : i < parent.size)
    (hchild : parent.child i = v.pageId) :
    mergeInto i ⟨v, recipient, parent⟩ =
      .ok () ⟨v.setSize 1, recipient.appended v 1, parent.erased i⟩ := by
  have hcapacity := hv.size_le_capacity
  have hpos := hv.size_pos
  apply Ends.eq_ok
  simp only [mergeInto, onNode, onRecipient, onParent, resize, ends_bind, ends_get, ends_zoom,
    ends_modify, ends_require, ends_answer (requireSlot_eq hi),
    ends_answer (childAt_eq hp.size_le_capacity hi), ends_answer (readSlots_eq v hpos hcapacity)]
  refine ⟨fun _ => ⟨fun _ => ⟨fun _ => ⟨fun _ => ?_, fun hno => hno hchild⟩,
    fun hno => hno hfamily⟩, fun hno => hno hroom⟩, fun hno => hno (by omega)⟩
  rw [ends_of_eq (append_eq hr hpos hroom), ends_of_eq (erase_eq hp.size_le_capacity hi)]
  exact ⟨trivial, rfl⟩

theorem mergeInto_answers (hv : v.Sound) (hr : recipient.Sound) (hp : parent.Sound)
    (hroom : recipient.size + (v.size - 1) ≤ recipient.maxSize)
    (hfamily : parent.pageId = v.parentId) (hslots : parent.slots = a ++ y :: b)
    (hy : y.2 = v.pageId) :
    (mergeInto a.length).Answers ⟨v, recipient, parent⟩ fun _ t =>
      Same v t.node ∧ Same recipient t.recipient ∧ Same parent t.parent ∧
        t.node.slots = v.slots.take 1 ∧ t.recipient.slots = recipient.slots ++ v.slots.drop 1 ∧
        t.parent.slots = a ++ b := by
  have hmax := hr.maxSize_lt
  have hpos := hv.size_pos
  have hparent := hp.size_le_capacity
  have hsize := size_at hslots
  have hlt : a.length < parent.size := by omega
  obtain ⟨-, hchild⟩ := Prod.mk.inj (slot_at hslots)
  refine ⟨(), _, mergeInto_eq hv hr hp hroom hfamily hlt (hchild.trans hy),
    (Same.refl v).setSize _, same_appended _ _ _, same_erased _ _,
    slots_setSize v hpos hv.size_le_capacity, slots_appended hpos (by omega), ?_⟩
  rw [slots_erased _ hparent hlt, hslots, List.eraseIdx_append_of_length_le (Nat.le_refl _),
    Nat.sub_self]
  rfl

end Family

end PagedIndex
