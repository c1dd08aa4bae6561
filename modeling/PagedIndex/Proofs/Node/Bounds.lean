import PagedIndex.Node.Siblings
import PagedIndex.Node.Text
import PagedIndex.Proofs.Node.Routing
import PagedIndex.Proofs.Page.Stamp

/-! # Operations stay inside the page

A node is `Bounded` when its header leaves every slot, and one more past the threshold, inside the
page; unlike a sound node it may have no slot at all.  There is one rule for each operation.  On
bounded nodes it ends in one of two ways: it answers, and every node that takes part is the node it
was with a stated number of slots (`Edited`), or one of its own checks has stopped it, and then
nothing has changed (`Checked`).  No operation leaves the page. -/

namespace PagedIndex

open PagedIndex.Action

attribute [local irreducible] Ends

/-- The causes for which an operation on nodes stops by itself: its contract is broken, arguments
or nodes do not fit together, or a count is out of range.  An access outside the page is none of
them. -/
def Fault.isChecked : Fault → Bool
  | noKeys _ | slotOutOfRange .. | rootNotEmpty _ | insertOverflow _ | childMissing ..
  | splitTargetNotEmpty _ | fillOverflow .. | notCollapsible .. | mergeOverflow ..
  | appendOverflow .. | nothingToLend _ | nodeFull _ | noRightSibling .. | lengthMismatch
  | notFamily | outOfRange => true
  | maxSizeOutside .. | keyTooNarrow _ | shortHeader | pinUnderflow | emptyPool | outOfBounds
  | divisionByZero => false

/-- A check has stopped an action, and nothing has changed. -/
def Checked {σ : Type} (s : σ) (cause : Fault) (s' : σ) : Prop :=
  cause.isChecked = true ∧ s' = s

theorem gather_eq {ε α : Type} {f : Nat → Except ε α} {g : Nat → α} {start count : Nat}
    (h : ∀ i, start ≤ i → i < start + count → f i = .ok (g i)) :
    gather f start count = .ok ((List.range' start count).map g) := by
  induction count generalizing start with
  | zero => rfl
  | succ count ih =>
      have hrest : gather f (start + 1) count = .ok ((List.range' (start + 1) count).map g) :=
        ih fun i hi hlt => h i (by omega) (by omega)
      simp only [gather, h start (Nat.le_refl _) (by omega), hrest, bind, Except.bind,
        List.range'_succ, List.map_cons]

namespace Node

variable {K : Type} [Key K] {u v w : Node K} {i m count start stop dest : Nat} {key : K}
variable {id old : PageId} {bs items : List UInt8}

/-! ### Bounded nodes -/

/-- The threshold is in its range, and the slots go at most one past it. -/
structure Bounded (v : Node K) : Prop where
  two_le_maxSize : 2 ≤ v.maxSize
  maxSize_lt : v.maxSize < capacity K
  size_le : v.size ≤ v.maxSize + 1

theorem Sound.bounded (h : v.Sound) : v.Bounded := ⟨h.two_le_maxSize, h.maxSize_lt, h.size_le⟩

/-- A node on the page of another one, with `count` slots: kind, threshold and identifier are
those of the other. -/
structure Edited (v w : Node K) (count : Nat) : Prop where
  kind : w.page.kind = v.page.kind
  maxSize : w.maxSize = v.maxSize
  pageId : w.pageId = v.pageId
  size : w.size = count
  count_le : count ≤ v.maxSize + 1

namespace Bounded

theorem size_le_capacity (h : v.Bounded) : v.size ≤ capacity K :=
  Nat.le_trans h.size_le h.maxSize_lt

theorem edited (h : v.Bounded) : Edited v v v.size := ⟨rfl, rfl, rfl, rfl, h.size_le⟩

end Bounded

namespace Edited

theorem bounded (hv : v.Bounded) (h : Edited v w m) : w.Bounded where
  two_le_maxSize := h.maxSize ▸ hv.two_le_maxSize
  maxSize_lt := h.maxSize ▸ hv.maxSize_lt
  size_le := by
    rw [h.size, h.maxSize]
    exact h.count_le

omit [Key K] in
theorem trans (h : Edited u v m) (h' : Edited v w count) : Edited u w count where
  kind := h'.kind.trans h.kind
  maxSize := h'.maxSize.trans h.maxSize
  pageId := h'.pageId.trans h.pageId
  size := h'.size
  count_le := h.maxSize ▸ h'.count_le

omit [Key K] in
theorem write (h : Edited v w m) (hstart : nodeStart ≤ start) (bs : List UInt8) :
    Edited v ⟨w.page.write start bs⟩ m := by
  have hheader := header_write (K := K) w.page bs hstart
  have hpos : 0 < start := Nat.lt_of_lt_of_le (by decide) hstart
  refine ⟨?_, ?_, ?_, ?_, h.count_le⟩
  · rw [Page.kind, Buffer.byte_write_of_lt _ _ hpos]
    exact h.kind
  · rw [maxSize_eq, hheader]
    exact h.maxSize
  · rw [pageId_eq, hheader]
    exact h.pageId
  · rw [size_eq, hheader]
    exact h.size

theorem withKey (h : Edited v w m) (i : Nat) (key : K) : Edited v (w.withKey i key) m :=
  h.write (nodeStart_le i) _

theorem withChild (h : Edited v w m) (i : Nat) (id : PageId) : Edited v (w.withChild i id) m :=
  h.write (Nat.le_add_right_of_le (nodeStart_le i)) _

theorem copied (h : Edited v w m) (u : Node K) (start stop dest : Nat) :
    Edited v (w.copied u start stop dest) m :=
  h.write (nodeStart_le dest) _

theorem setSize (hv : v.Bounded) (h : Edited v w m) (hcount : count ≤ v.maxSize + 1) :
    Edited v (w.setSize count) count where
  kind := by
    rw [Node.setSize, Page.kind, Buffer.byte_setU32 _ _ (by decide)]
    exact h.kind
  maxSize := by
    rw [maxSize_eq, header_setSize]
    exact h.maxSize
  pageId := by
    rw [pageId_eq, header_setSize]
    exact h.pageId
  size := size_setSize (Nat.le_trans hcount hv.maxSize_lt) w
  count_le := hcount

omit [Key K] in
theorem setParent (h : Edited v w m) (parent : PageId) : Edited v (w.setParent parent) m where
  kind := by
    rw [Node.setParent, Page.kind, Buffer.byte_setU32 _ _ (by decide)]
    exact h.kind
  maxSize := by
    rw [Node.maxSize, Node.setParent, Buffer.u32_setU32_of_disjoint _ _ (by decide)]
    exact h.maxSize
  pageId := by
    rw [Node.pageId, Node.setParent, Buffer.u32_setU32_of_disjoint _ _ (by decide)]
    exact h.pageId
  size := by
    rw [Node.size, Node.setParent, Buffer.u32_setU32_of_disjoint _ _ (by decide)]
    exact h.size
  count_le := h.count_le

end Edited

/-! ### Looking at a node -/

theorem childIndex_total (hsize : v.size ≤ capacity K) (id : PageId) :
    ∃ j, v.childIndex id = .ok j :=
  ⟨_, childIndex_findIdx hsize id⟩

theorem entries_eq (hsize : v.size ≤ capacity K) : v.entries = .ok v.slots := by
  rw [slots_def, List.range_eq_range']
  refine gather_eq fun i _ hi => ?_
  simp only [readKey_eq v (show i < capacity K by omega),
    readChild_eq v (show i < capacity K by omega)]
  rfl

theorem separatorText_total [KeyText K] (hsize : v.size ≤ capacity K) :
    ∃ t, v.separatorText = .ok t := by
  have hkeys : gather v.readKey 1 (v.size - 1) = .ok ((List.range' 1 (v.size - 1)).map v.key) :=
    gather_eq fun i _ hi => readKey_eq v (by omega)
  unfold separatorText
  rw [hkeys]
  exact ⟨_, rfl⟩

theorem render_total [KeyText K] (hsize : v.size ≤ capacity K) (long : Bool) :
    ∃ t, v.render long = .ok t := by
  cases long with
  | false => exact separatorText_total hsize
  | true =>
      unfold render slotText
      rw [entries_eq hsize]
      exact ⟨_, rfl⟩

theorem debugText_total [KeyText K] (hsize : v.size ≤ capacity K) : ∃ t, v.debugText = .ok t := by
  unfold debugText
  rw [entries_eq hsize]
  exact ⟨_, rfl⟩

/-! ### Edits of one node -/

namespace Edit

variable {Q : Unit → Node K → Prop} {E : Fault → Node K → Prop}

/-- Slots that are given as bytes are stored in the page. -/
theorem putSlots_ends (hlen : items.length = count * slotWidth K)
    (hdest : dest + count ≤ capacity K)
    (h : Q () ⟨v.page.write (slotStart K dest) items⟩) :
    Ends (put (slotStart K dest) items) v Q E := by
  have hin := slotStart_le_pageSize (K := K) hdest
  rw [slotStart_add, ← hlen] at hin
  simp only [put, ends_bind, ends_require, ends_modify]
  exact ⟨fun _ => h, fun hno => absurd hin hno⟩

theorem setKey_ends (hv : v.Bounded) :
    (setKey i key).Ends v (fun _ w => Edited v w v.size) (Checked v) := by
  have hcapacity := hv.size_le_capacity
  simp only [setKey, requireSlot, ends_bind, ends_get, ends_require]
  refine ⟨fun hi => ?_, fun _ => ⟨rfl, rfl⟩⟩
  apply putKey_ends (by omega)
  exact hv.edited.withKey i key

theorem setChild_ends (hv : v.Bounded) :
    (setChild i id).Ends v (fun _ w => Edited v w v.size) (Checked v) := by
  have hcapacity := hv.size_le_capacity
  simp only [setChild, requireSlot, ends_bind, ends_get, ends_require]
  refine ⟨fun hi => ?_, fun _ => ⟨rfl, rfl⟩⟩
  apply putChild_ends (by omega)
  exact hv.edited.withChild i id

theorem setParent_ends (hv : v.Bounded) :
    (setParent id).Ends v (fun _ w => Edited v w v.size) (Checked v) := by
  simp only [setParent, ends_modify]
  exact hv.edited.setParent id

/-- Only a slot that is not there cannot be removed. -/
theorem erase_ends (hv : v.Bounded) :
    (erase i).Ends v (fun _ w => Edited v w (v.size - 1))
      fun c w => ¬ i < v.size ∧ Checked v c w := by
  have hcapacity := hv.size_le_capacity
  have hle := hv.size_le
  simp only [erase, requireSlot, resize, ends_bind, ends_get, ends_require, ends_modify]
  refine ⟨fun hi => ?_, fun hi => ⟨hi, rfl, rfl⟩⟩
  apply shift_ends hcapacity (by omega) (by omega)
  exact (hv.edited.copied v _ _ _).setSize hv (by omega)

theorem insertAfter_ends (hv : v.Bounded) :
    (insertAfter old key id).Ends v (fun _ w => Edited v w (v.size + 1)) (Checked v) := by
  have hcapacity := hv.size_le_capacity
  have hmax := hv.maxSize_lt
  obtain ⟨j, hj⟩ := childIndex_total hcapacity old
  simp only [insertAfter, resize, ends_bind, ends_get, ends_require, ends_modify, ends_pure,
    ends_answer hj]
  refine ⟨fun hfit => ⟨fun hfound => ?_, fun _ => ⟨rfl, rfl⟩⟩, fun _ => ⟨rfl, rfl⟩⟩
  apply shift_ends hcapacity (by omega) (by omega)
  apply putKey_ends (by omega)
  apply putChild_ends (by omega)
  exact (((hv.edited.copied v _ _ _).withKey _ key).withChild _ id).setSize hv (by omega)

theorem plant_ends (hv : v.Bounded) :
    (plant old key id).Ends v (fun _ w => Edited v w 2) (Checked v) := by
  have hmax := hv.maxSize_lt
  have htwo := hv.two_le_maxSize
  simp only [plant, resize, ends_bind, ends_get, ends_require, ends_modify]
  refine ⟨fun _ => ?_, fun _ => ⟨rfl, rfl⟩⟩
  apply putChild_ends (by omega)
  apply putKey_ends (by omega)
  apply putChild_ends (by omega)
  exact (((hv.edited.withChild 0 old).withKey 1 key).withChild 1 id).setSize hv (by omega)

theorem collapse_ends (hv : v.Bounded) :
    collapse.Ends v (fun _ w => Edited v w 1) (Checked v) := by
  have hmax := hv.maxSize_lt
  have hread := readChild_eq (v.setSize 1) (show 0 < capacity K by omega)
  simp only [collapse, resize, ends_bind, ends_get, ends_require, ends_modify, ends_answer hread]
  refine ⟨fun _ => ?_, fun _ => ⟨rfl, rfl⟩⟩
  exact hv.edited.setSize hv (by omega)

theorem fill_ends (hv : v.Bounded) :
    (fill items count).Ends v (fun _ w => Edited v w count) (Checked v) := by
  have hmax := hv.maxSize_lt
  simp only [fill, resize, ends_bind, ends_get, ends_require, ends_modify]
  refine ⟨fun _ => ⟨fun hfit => ⟨fun hlen => ?_, fun _ => ⟨rfl, rfl⟩⟩, fun _ => ⟨rfl, rfl⟩⟩,
    fun _ => ⟨rfl, rfl⟩⟩
  apply putSlots_ends hlen (by omega)
  exact (hv.edited.write (nodeStart_le 0) items).setSize hv (by omega)

/-- Slots are appended if they fit and if there are as many as stated. -/
theorem append_ends (hv : v.Bounded) :
    (append items count).Ends v (fun _ w => Edited v w (v.size + count))
      fun c w => ¬ (v.size + count ≤ v.maxSize ∧ items.length = count * slotWidth K) ∧
        Checked v c w := by
  have hmax := hv.maxSize_lt
  have hcapacity := capacity_lt (K := K)
  have hword : UInt64.size = 18446744073709551616 := rfl
  simp only [append, resize, ends_bind, ends_get, ends_require, ends_modify]
  refine ⟨fun _ => ⟨fun hfit => ⟨fun hlen => ?_, fun hlen => ?_⟩, fun hfit => ?_⟩, fun hword => ?_⟩
  · apply putSlots_ends hlen (by omega)
    exact (hv.edited.write (nodeStart_le _) items).setSize hv (by omega)
  · exact ⟨fun h => hlen h.2, rfl, rfl⟩
  · exact ⟨fun h => hfit h.1, rfl, rfl⟩
  · exact ⟨fun h => hword (by omega), rfl, rfl⟩

end Edit

end Node

/-! ### Operations on neighbours -/

open Node Node.Edit

variable {K : Type} [Key K] {v recipient parent : Node K} {key : K} {id : PageId} {i : Nat}

theorem Split.moveHalf_ends (hv : v.Bounded) (hr : recipient.Bounded) :
    Split.moveHalf.Ends ⟨v, recipient⟩
      (fun _ s => Edited v s.node (v.size - v.size / 2) ∧
        Edited recipient s.recipient (v.size / 2)) (Checked ⟨v, recipient⟩) := by
  have hsize := hv.size_le
  have hread := readSlots_eq v (Nat.sub_le v.size (v.size / 2)) hv.size_le_capacity
  simp only [Split.moveHalf, Split.onRecipient, Split.onNode, resize, ends_bind, ends_get,
    ends_zoom, ends_modify, ends_answer hread]
  refine (fill_ends hr).mono (fun _ w hw => ?_) fun c w hw => ⟨hw.1, by rw [hw.2]⟩
  exact ⟨hv.edited.setSize hv (by omega), hw⟩

namespace Pair

theorem takeLast_ends (hv : v.Bounded) (hp : parent.Bounded) :
    (takeLast key id).Ends ⟨v, parent⟩
      (fun _ s => Edited v s.node (v.size + 1) ∧ Edited parent s.parent parent.size)
      (Checked ⟨v, parent⟩) := by
  have hmax := hv.maxSize_lt
  have hcapacity := hp.size_le_capacity
  obtain ⟨j, hj⟩ := childIndex_total hcapacity v.pageId
  simp only [takeLast, onNode, onParent, resize, ends_bind, ends_get, ends_zoom, ends_modify,
    ends_require, ends_answer hj]
  refine ⟨fun hroom => ⟨fun _ => ⟨fun hright => ?_, fun _ => ⟨rfl, rfl⟩⟩, fun _ => ⟨rfl, rfl⟩⟩,
    fun _ => ⟨rfl, rfl⟩⟩
  rw [ends_answer (readKey_eq parent (show j + 1 < capacity K by omega))]
  apply putKey_ends (by omega)
  apply putChild_ends (by omega)
  apply putKey_ends (by omega)
  exact ⟨((hv.edited.withKey _ _).withChild _ id).setSize hv (by omega),
    hp.edited.withKey (j + 1) key⟩

theorem takeFirst_ends (hv : v.Bounded) (hp : parent.Bounded) :
    (takeFirst key id i).Ends ⟨v, parent⟩
      (fun _ s => Edited v s.node (v.size + 1) ∧ Edited parent s.parent parent.size)
      (Checked ⟨v, parent⟩) := by
  have hmax := hv.maxSize_lt
  have hnode := hv.size_le_capacity
  have hcapacity := hp.size_le_capacity
  simp only [takeFirst, requireSlot, onNode, onParent, resize, ends_bind, ends_get, ends_zoom,
    ends_modify, ends_require]
  refine ⟨fun hroom => ⟨fun hi => ⟨fun _ => ?_, fun _ => ⟨rfl, rfl⟩⟩, fun _ => ⟨rfl, rfl⟩⟩,
    fun _ => ⟨rfl, rfl⟩⟩
  rw [ends_answer (childAt_eq hcapacity hi)]
  refine ⟨fun _ => ?_, fun _ => ⟨rfl, rfl⟩⟩
  rw [ends_answer (readKey_eq parent (show i < capacity K by omega))]
  apply putKey_ends (by omega)
  apply shift_ends hnode (by omega) (by omega)
  apply putKey_ends (by omega)
  apply putChild_ends (by omega)
  exact ⟨(((hv.edited.copied v _ _ _).withKey _ _).withChild _ id).setSize hv (by omega),
    hp.edited.withKey i key⟩

end Pair

namespace Family

theorem mergeInto_ends (hv : v.Bounded) (hr : recipient.Bounded) (hp : parent.Bounded) :
    (mergeInto i).Ends ⟨v, recipient, parent⟩
      (fun _ s => Edited v s.node 1 ∧
        Edited recipient s.recipient (recipient.size + (v.size - 1)) ∧
        Edited parent s.parent (parent.size - 1))
      (Checked ⟨v, recipient, parent⟩) := by
  simp only [mergeInto, requireSlot, onNode, onRecipient, onParent, resize, ends_bind, ends_get,
    ends_zoom, ends_modify, ends_require]
  refine ⟨fun hpos => ⟨fun hfit => ⟨fun hi => ⟨fun _ => ?_, fun _ => ⟨rfl, rfl⟩⟩,
    fun _ => ⟨rfl, rfl⟩⟩, fun _ => ⟨rfl, rfl⟩⟩, fun _ => ⟨rfl, rfl⟩⟩
  rw [ends_answer (childAt_eq hp.size_le_capacity hi)]
  refine ⟨fun _ => ?_, fun _ => ⟨rfl, rfl⟩⟩
  have hone : 1 ≤ v.size := Nat.pos_of_ne_zero hpos
  rw [ends_answer (readSlots_eq v hone hv.size_le_capacity)]
  -- All checks have been passed: the two operations that follow find their contracts fulfilled.
  refine (append_ends hr).mono (fun _ w hw => ?_) fun _ _ hno => ?_
  · refine (erase_ends hp).mono (fun _ q hq => ?_) fun _ _ hno => absurd hi hno.1
    exact ⟨hv.edited.setSize hv (by omega), hw, hq⟩
  · refine absurd ⟨hfit, ?_⟩ hno.1
    rw [Buffer.length_read, slotStart_sub hone]

theorem lendFirst_ends (hv : v.Bounded) (hr : recipient.Bounded) (hp : parent.Bounded) :
    lendFirst.Ends ⟨v, recipient, parent⟩
      (fun _ s => 1 < v.size ∧ Edited v s.node (v.size - 1) ∧
        Edited recipient s.recipient (recipient.size + 1) ∧ Edited parent s.parent parent.size)
      (Checked ⟨v, recipient, parent⟩) := by
  have hcapacity := hv.size_le_capacity
  simp only [lendFirst, onNode, onReceivers, ends_bind, ends_get, ends_zoom, ends_require]
  refine ⟨fun hlend => ?_, fun _ => ⟨rfl, rfl⟩⟩
  rw [ends_answer (readKey_eq v (show 1 < capacity K by omega)),
    ends_answer (readChild_eq v (show 0 < capacity K by omega))]
  refine (Pair.takeLast_ends hr hp).mono (fun _ q hq => ?_) fun c q hq => ⟨hq.1, by rw [hq.2]⟩
  rw [ends_answer (readChild_eq v (show 1 < capacity K by omega))]
  apply putChild_ends (by omega)
  have hw := hv.edited.withChild 0 (v.child 1)
  generalize v.withChild 0 (v.child 1) = w at hw ⊢
  refine (erase_ends (hw.bounded hv)).mono (fun _ u hu => ?_) fun _ _ hno => ?_
  · rw [hw.size] at hu
    exact ⟨hlend, hw.trans hu, hq⟩
  · exact absurd (by rwa [hw.size]) hno.1

theorem lendLast_ends (hv : v.Bounded) (hr : recipient.Bounded) (hp : parent.Bounded) :
    (lendLast i).Ends ⟨v, recipient, parent⟩
      (fun _ s => 1 < v.size ∧ Edited v s.node (v.size - 1) ∧
        Edited recipient s.recipient (recipient.size + 1) ∧ Edited parent s.parent parent.size)
      (Checked ⟨v, recipient, parent⟩) := by
  have hcapacity := hv.size_le_capacity
  have hle := hv.size_le
  simp only [lendLast, onNode, onReceivers, resize, ends_bind, ends_get, ends_zoom, ends_modify,
    ends_require]
  refine ⟨fun hlend => ?_, fun _ => ⟨rfl, rfl⟩⟩
  rw [ends_answer (readKey_eq v (show v.size - 1 < capacity K by omega)),
    ends_answer (readChild_eq v (show v.size - 1 < capacity K by omega))]
  refine (Pair.takeFirst_ends hr hp).mono (fun _ q hq => ?_) fun c q hq => ⟨hq.1, by rw [hq.2]⟩
  exact ⟨hlend, hv.edited.setSize hv (by omega), hq⟩

end Family

end PagedIndex
