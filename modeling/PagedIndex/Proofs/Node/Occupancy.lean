import PagedIndex.Proofs.Node.Merging
import PagedIndex.Proofs.Node.Routing

/-! # Occupancy

A node that is not the root holds between `minSize`, half of its threshold rounded up, and
`maxSize` slots.  Splitting an overflowing node, merging one that is a slot short with a neighbour
that has nothing to spare, and borrowing from a neighbour that has, all end inside these bounds
whatever the threshold is (`occupancy_kept`).  Only a search asks for more, a second slot: under the
least threshold, two, the upper half of a split has one slot, and no probe is led anywhere from
there until another one is inserted (`upper_half_of_three`). -/

namespace PagedIndex

open PagedIndex.Action Node Node.Edit

attribute [local irreducible] Ends

variable {K : Type} [Key K] {v recipient left right parent : Node K} {i j m : Nat}

namespace Node

/-- No fewer slots than a node other than the root may hold, and no more than the threshold. -/
structure Occupied (v : Node K) : Prop where
  minSize_le : v.minSize ≤ v.size
  size_le : v.size ≤ v.maxSize

/-- Every probe is led to one of the children, under any comparator. -/
structure Searchable (v : Node K) : Prop where
  one_lt : 1 < v.size
  routes : ∀ order probe, ∃ i < v.size, v.route order probe = .ok (v.child i)

theorem searchable_of_one_lt (hsize : v.size ≤ capacity K) (h : 1 < v.size) : v.Searchable where
  one_lt := h
  routes order probe := by
    obtain ⟨i, hroute, hi⟩ := route_child hsize h order probe
    exact ⟨i, hi, hroute⟩

theorem route_noKeys (h : ¬1 < v.size) (order : K → K → Ordering) (probe : K) :
    v.route order probe = .error (.noKeys v.pageId) := by
  rw [route, require, if_neg h]
  rfl

omit [Key K] in
theorem Same.minSize {w : Node K} (h : Same v w) : w.minSize = v.minSize := by
  rw [Node.minSize, Node.minSize, h.maxSize]

theorem exists_childIndex_last (hv : v.Sound) :
    ∃ k, v.childIndex (v.child (v.size - 1)) = .ok k ∧ k < v.size := by
  obtain ⟨l, x, hslots⟩ := hv.exists_snoc
  have hsize := size_at hslots
  rw [List.length_nil, Nat.zero_add] at hsize
  obtain ⟨-, hlast⟩ := Prod.mk.inj (slot_at hslots)
  refine ⟨_, childIndex_findIdx hv.size_le_capacity _, ?_⟩
  rw [← length_slots v, List.findIdx_lt_length, length_slots, hsize, Nat.add_sub_cancel, hlast]
  exact ⟨x, by rw [hslots]; simp, decide_eq_true rfl⟩

end Node

/-- A node that overflows is split into two occupied halves.  The upper one has the smaller half
of the slots, which is a single one under the least threshold. -/
theorem Split.moveHalf_occupied (hv : v.Sound) (hr : recipient.Sound) (hmax : v.maxSize = m)
    (hmax' : recipient.maxSize = m) (hover : v.size = m + 1) (hone : recipient.size = 1) :
    ∃ lower upper, Split.moveHalf ⟨v, recipient⟩ = .ok () ⟨lower, upper⟩ ∧
      lower.Occupied ∧ upper.Occupied ∧ lower.Searchable ∧ (3 ≤ m → upper.Searchable) ∧
      (m = 2 → lower.size = 2 ∧ upper.size = 1 ∧
        ∀ order probe, upper.route order probe = .error (.noKeys upper.pageId)) := by
  have htwo := hv.two_le_maxSize
  have hlt := hv.maxSize_lt
  have hlower : (v.setSize (v.size - v.size / 2)).size = v.size - v.size / 2 :=
    size_setSize (by omega) v
  have hupper : (recipient.filled v (v.size - v.size / 2)).size = v.size - (v.size - v.size / 2) :=
    size_filled (by omega)
  have hsame : Same v (v.setSize (v.size - v.size / 2)) := (Same.refl v).setSize _
  have hsame' : Same recipient (recipient.filled v (v.size - v.size / 2)) := same_filled _ _ _
  refine ⟨_, _, moveHalf_eq hv hr hone (by omega), ⟨?_, ?_⟩, ⟨?_, ?_⟩,
    searchable_of_one_lt (by omega) (by omega),
    fun hthree => searchable_of_one_lt (by omega) (by omega),
    fun htwo => ⟨by omega, by omega, route_noKeys (by omega)⟩⟩
  · rw [hsame.minSize, minSize]
    omega
  · rw [hsame.maxSize]
    omega
  · rw [hsame'.minSize, minSize]
    omega
  · rw [hsame'.maxSize]
    omega

namespace Family

/-- The two calls of a merge find the room that they ask for, whichever slot they insert behind. -/
theorem absorb_fits (hl : left.Sound) (hr : right.Sound) (hp : parent.Sound)
    (hfit : left.size + right.size ≤ left.maxSize) (hi : i < parent.size)
    (hchild : parent.child i = right.pageId) (hfamily : right.parentId = parent.pageId) :
    ∃ left' right' parent', absorb i ⟨right, left, parent⟩ = .ok () ⟨right', left', parent'⟩ ∧
      Same left left' ∧ left'.size = left.size + right.size := by
  have hmax := hl.maxSize_lt
  have hposl := hl.size_pos
  have hposr := hr.size_pos
  obtain ⟨k, hindex, hk⟩ := exists_childIndex_last hl
  have hends := absorb_ends hl (by omega) hr hp hi hchild hfamily hindex hk
  obtain ⟨_, t, hrun, -, ht⟩ :=
    (hends.mono (fun _ _ h => h) fun _ _ h => Nat.not_le_of_lt h.1 hfit).answers
  have hinserted : (left.inserted k (parent.key i) (right.child 0)).size = left.size + 1 :=
    size_inserted left (by omega)
  refine ⟨_, _, _, hrun.trans (congrArg _ ht),
    (same_inserted _ _ _ _).trans (same_appended _ _ _), ?_⟩
  rw [size_appended (by omega)]
  omega

/-- Two neighbours that hold one slot less together than two nodes must hold fit into one. -/
theorem absorb_occupied (hl : left.Sound) (hr : right.Sound) (hp : parent.Sound)
    (hmax : left.maxSize = m) (hmax' : right.maxSize = m)
    (hsizes : left.size + 1 = left.minSize ∧ right.size = right.minSize ∨
      left.size = left.minSize ∧ right.size + 1 = right.minSize)
    (hi : i < parent.size) (hchild : parent.child i = right.pageId)
    (hfamily : right.parentId = parent.pageId) :
    ∃ left' right' parent', absorb i ⟨right, left, parent⟩ = .ok () ⟨right', left', parent'⟩ ∧
      left'.size = left.size + right.size ∧ left'.Occupied := by
  have hposl := hl.size_pos
  have hposr := hr.size_pos
  have hminl : left.minSize = (m + 1) / 2 := by rw [minSize, hmax]
  have hminr : right.minSize = (m + 1) / 2 := by rw [minSize, hmax']
  obtain ⟨left', right', parent', hrun, hsame, hsize⟩ :=
    absorb_fits hl hr hp (by omega) hi hchild hfamily
  have hminkept := hsame.minSize
  have hmaxkept := hsame.maxSize
  exact ⟨left', right', parent', hrun, hsize, by omega, by omega⟩

end Family

namespace Node

/-- A neighbour with slots to spare lends one to a node that is a slot short, in either
direction. -/
theorem Neighbours.lends (h : Neighbours parent left right j) (hl : left.Sound) (hr : right.Sound)
    (hp : parent.Sound) (hmax : left.maxSize = m) (hmax' : right.maxSize = m) :
    (left.size + 1 = left.minSize → right.minSize < right.size →
      ∃ left' right' parent',
        Family.lendFirst ⟨right, left, parent⟩ = .ok () ⟨right', left', parent'⟩ ∧
          left'.size = left'.minSize ∧ right'.size + 1 = right.size ∧
          right'.minSize ≤ right'.size) ∧
    (right.size + 1 = right.minSize → left.minSize < left.size →
      ∃ left' right' parent',
        Family.lendLast (j + 1) ⟨left, right, parent⟩ = .ok () ⟨left', right', parent'⟩ ∧
          right'.size = right'.minSize ∧ left'.size + 1 = left.size ∧
          left'.minSize ≤ left'.size) := by
  have hposl := hl.size_pos
  have hposr := hr.size_pos
  have hminl : left.minSize = (m + 1) / 2 := by rw [minSize, hmax]
  have hminr : right.minSize = (m + 1) / 2 := by rw [minSize, hmax']
  obtain ⟨hleft, hright⟩ := h.redistributed hl hr hp
  refine ⟨fun hshort hspare => ?_, fun hshort hspare => ?_⟩
  · obtain ⟨left', right', parent', hrun, hdone, hsize, hsize'⟩ := hleft (by omega) (by omega)
    have hkept := hdone.left_same.minSize
    have hkept' := hdone.right_same.minSize
    exact ⟨left', right', parent', hrun, by omega, by omega, by omega⟩
  · obtain ⟨left', right', parent', hrun, hdone, hsize, hsize'⟩ := hright (by omega) (by omega)
    have hkept := hdone.left_same.minSize
    have hkept' := hdone.right_same.minSize
    exact ⟨left', right', parent', hrun, by omega, by omega, by omega⟩

/-- The bounds on the slots of a node fit together under every threshold.  Splitting leaves two
occupied halves, and both can be searched from a threshold of three on; a node that is a slot short
and a neighbour that has nothing to spare can be merged; a neighbour that has can lend. -/
theorem occupancy_kept (m : Nat) :
    (∀ v recipient : Node K, v.Sound → recipient.Sound → v.maxSize = m → recipient.maxSize = m →
      v.size = m + 1 → recipient.size = 1 →
      ∃ lower upper, Split.moveHalf ⟨v, recipient⟩ = .ok () ⟨lower, upper⟩ ∧
        lower.Occupied ∧ upper.Occupied ∧ lower.Searchable ∧ (3 ≤ m → upper.Searchable) ∧
        (m = 2 → lower.size = 2 ∧ upper.size = 1 ∧
          ∀ order probe, upper.route order probe = .error (.noKeys upper.pageId))) ∧
    (∀ (left right parent : Node K) (i : Nat), left.Sound → right.Sound → parent.Sound →
      left.maxSize = m → right.maxSize = m →
      left.size + 1 = left.minSize ∧ right.size = right.minSize ∨
        left.size = left.minSize ∧ right.size + 1 = right.minSize →
      i < parent.size → parent.child i = right.pageId → right.parentId = parent.pageId →
      ∃ left' right' parent',
        Family.absorb i ⟨right, left, parent⟩ = .ok () ⟨right', left', parent'⟩ ∧
          left'.size = left.size + right.size ∧ left'.Occupied) ∧
    (∀ (left right parent : Node K) (j : Nat), left.Sound → right.Sound → parent.Sound →
      left.maxSize = m → right.maxSize = m → Neighbours parent left right j →
      (left.size + 1 = left.minSize → right.minSize < right.size →
        ∃ left' right' parent',
          Family.lendFirst ⟨right, left, parent⟩ = .ok () ⟨right', left', parent'⟩ ∧
            left'.size = left'.minSize ∧ right'.size + 1 = right.size ∧
            right'.minSize ≤ right'.size) ∧
      (right.size + 1 = right.minSize → left.minSize < left.size →
        ∃ left' right' parent',
          Family.lendLast (j + 1) ⟨left, right, parent⟩ = .ok () ⟨left', right', parent'⟩ ∧
            right'.size = right'.minSize ∧ left'.size + 1 = left.size ∧
            left'.minSize ≤ left'.size)) := by
  exact ⟨fun v recipient hv hr hmax hmax' hover hone =>
      Split.moveHalf_occupied hv hr hmax hmax' hover hone,
    fun left right parent i hl hr hp hmax hmax' hsizes hi hchild hfamily =>
      Family.absorb_occupied hl hr hp hmax hmax' hsizes hi hchild hfamily,
    fun left right parent j hl hr hp hmax hmax' h => h.lends hl hr hp hmax hmax'⟩

/-- A child of `Neighbours.above` with a threshold of three and the given number of slots. -/
def below (id : PageId) (count : Nat) : Node UInt32 :=
  ofSlots id ⟨1⟩ 3 ((List.range count).map fun i => (UInt32.ofNat i, ⟨UInt32.ofNat i⟩))

theorem below_eq (id : PageId) (count : Nat) (h : 1 ≤ count ∧ count ≤ 4) :
    (below id count).Sound ∧ (below id count).maxSize = 3 ∧ (below id count).minSize = 2 ∧
      (below id count).size = count ∧ (below id count).pageId = id ∧
      (below id count).parentId = ⟨1⟩ := by
  have hcapacity : 4 ≤ capacity UInt32 := by decide
  have hlen : ((List.range count).map fun i =>
      (UInt32.ofNat i, (⟨UInt32.ofNat i⟩ : PageId))).length = count := by simp
  obtain ⟨hslots, hmax, hid, hparent⟩ := ofSlots_eq (K := UInt32) id ⟨1⟩ 3
    ((List.range count).map fun i => (UInt32.ofNat i, ⟨UInt32.ofNat i⟩)) (by decide) (by omega)
  exact ⟨ofSlots_sound _ _ _ _ (by decide) (by omega), hmax, by rw [minSize, below, hmax],
    (size_of_slots hslots).trans hlen, hid, hparent⟩

open Neighbours in
/-- Under a threshold of three, four slots are split, one slot and two are merged, and of three
slots one is lent to either side. -/
theorem occupancy_kept_three :
    (∃ lower upper, Split.moveHalf ⟨below ⟨2⟩ 4, below ⟨3⟩ 1⟩ = .ok () ⟨lower, upper⟩ ∧
      lower.Occupied ∧ upper.Occupied ∧ lower.Searchable ∧ upper.Searchable) ∧
    (∃ left right parent,
      Family.absorb 2 ⟨below ⟨3⟩ 2, below ⟨2⟩ 1, above⟩ = .ok () ⟨right, left, parent⟩ ∧
        left.size = 3 ∧ left.Occupied) ∧
    (∃ left right parent,
      Family.lendFirst ⟨below ⟨3⟩ 3, below ⟨2⟩ 1, above⟩ = .ok () ⟨right, left, parent⟩ ∧
        left.size = left.minSize ∧ right.size = 2 ∧ right.minSize ≤ right.size) ∧
    ∃ left right parent,
      Family.lendLast 2 ⟨below ⟨2⟩ 3, below ⟨3⟩ 1, above⟩ = .ok () ⟨left, right, parent⟩ ∧
        right.size = right.minSize ∧ left.size = 2 ∧ left.minSize ≤ left.size := by
  obtain ⟨hsplit, hmerge, hlend⟩ := occupancy_kept (K := UInt32) 3
  obtain ⟨hl₁, hmaxl₁, hminl₁, hsizel₁, hidl₁, hparl₁⟩ := below_eq ⟨2⟩ 1 (by decide)
  obtain ⟨hr₁, hmaxr₁, hminr₁, hsizer₁, hidr₁, hparr₁⟩ := below_eq ⟨3⟩ 1 (by decide)
  obtain ⟨hr₂, hmaxr₂, hminr₂, hsizer₂, hidr₂, hparr₂⟩ := below_eq ⟨3⟩ 2 (by decide)
  obtain ⟨hl₃, hmaxl₃, hminl₃, hsizel₃, hidl₃, hparl₃⟩ := below_eq ⟨2⟩ 3 (by decide)
  obtain ⟨hr₃, hmaxr₃, hminr₃, hsizer₃, hidr₃, hparr₃⟩ := below_eq ⟨3⟩ 3 (by decide)
  obtain ⟨hl₄, hmaxl₄, -, hsizel₄, -⟩ := below_eq ⟨2⟩ 4 (by decide)
  have hkin := above_neighbours hidl₁ hidr₂ hparl₁ hparr₂
  refine ⟨?_, ?_, ?_, ?_⟩
  · obtain ⟨lower, upper, hrun, hlower, hupper, hsearch, hsearch', -⟩ :=
      hsplit _ _ hl₄ hr₁ hmaxl₄ hmaxr₁ hsizel₄ hsizer₁
    exact ⟨lower, upper, hrun, hlower, hupper, hsearch, hsearch' (by decide)⟩
  · obtain ⟨left, right, parent, hrun, hsize, hin⟩ := hmerge _ _ _ _ hl₁ hr₂ above_sound hmaxl₁
      hmaxr₂ (.inl ⟨by omega, by omega⟩) hkin.lt_size hkin.right_child hkin.right_parent
    exact ⟨left, right, parent, hrun, by omega, hin⟩
  · obtain ⟨left, right, parent, hrun, hfull, hless, hkept⟩ := (hlend _ _ _ _ hl₁ hr₃ above_sound
      hmaxl₁ hmaxr₃ (above_neighbours hidl₁ hidr₃ hparl₁ hparr₃)).1 (by omega) (by omega)
    exact ⟨left, right, parent, hrun, hfull, by omega, hkept⟩
  · obtain ⟨left, right, parent, hrun, hfull, hless, hkept⟩ := (hlend _ _ _ _ hl₃ hr₁ above_sound
      hmaxl₃ hmaxr₁ (above_neighbours hidl₃ hidr₁ hparl₃ hparr₁)).2 (by omega) (by omega)
    exact ⟨left, right, parent, hrun, hfull, by omega, hkept⟩

/-- Under the least threshold the upper half of three slots is a single slot, which has no key to
compare a probe with. -/
theorem upper_half_of_three :
    ∃ recipient, format Page.zero ⟨2⟩ ⟨0⟩ 2 = .ok recipient ∧
      ∃ lower upper : Node UInt32,
        Split.moveHalf ⟨ofSlots ⟨1⟩ ⟨0⟩ 2 [(0, ⟨10⟩), (5, ⟨11⟩), (8, ⟨12⟩)], recipient⟩ =
          .ok () ⟨lower, upper⟩ ∧
        upper.slots = [(8, ⟨12⟩)] ∧
        ∀ order probe, upper.route order probe = .error (.noKeys ⟨2⟩) := by
  obtain ⟨recipient, hformat, hsound', hone, hmax', hid, -⟩ :=
    format_eq Page.zero ⟨2⟩ ⟨0⟩ (show 2 ≤ 2 ∧ 2 < capacity UInt32 by decide)
  obtain ⟨hslots, hmax, -⟩ :=
    ofSlots_eq (K := UInt32) ⟨1⟩ ⟨0⟩ 2 [(0, ⟨10⟩), (5, ⟨11⟩), (8, ⟨12⟩)] (by decide) (by decide)
  have hsound : (ofSlots (K := UInt32) ⟨1⟩ ⟨0⟩ 2 [(0, ⟨10⟩), (5, ⟨11⟩), (8, ⟨12⟩)]).Sound :=
    ofSlots_sound _ _ _ _ (by decide) (by decide)
  have hsize := size_of_slots hslots
  obtain ⟨⟨⟩, ⟨lower, upper⟩, hrun, -, hsame, -, hupper⟩ :=
    Split.moveHalf_answers hsound hsound' hone (by rw [hsize, hmax']; decide)
  rw [hslots, hsize] at hupper
  refine ⟨recipient, hformat, lower, upper, hrun, hupper, fun order probe => ?_⟩
  rw [← hid, ← hsame.pageId]
  exact route_noKeys (by rw [size_of_slots hupper]; decide) order probe

end Node

end PagedIndex
