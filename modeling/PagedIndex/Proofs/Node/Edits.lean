import PagedIndex.Proofs.Action
import PagedIndex.Proofs.Node.Slots

/-! # Edits as list operations

On a node whose slots lie in the page every edit of `Node.Edit` answers when its contract holds.
The node that it leaves has a name, `inserted`, `erased`, `filled` or `appended`, and is the old
one but for an operation on the list of slots: `insertAfter` inserts a slot behind the first one
that points at the given child, `erase` removes a slot, `fill` replaces and `append` extends the
list.  The header keeps everything but the size. -/

namespace PagedIndex

open PagedIndex.Action

attribute [local irreducible] Ends

namespace Node

variable {K : Type} [Key K] {v u w : Node K} {a b : List (K × PageId)} {e : K × PageId}
variable {i start stop dest : Nat} {key : K} {id : PageId}

/-! ### Reading -/

theorem spans_slot (h : i < capacity K) : slotStart K (i + 1) ≤ pageSize :=
  slotStart_le_pageSize h

theorem readKey_eq (v : Node K) (h : i < capacity K) : v.readKey i = .ok (v.key i) := by
  have hin := spans_slot (K := K) h
  have hsucc := slotStart_succ (K := K) i
  unfold childStart at hsucc
  exact if_pos (show Buffer.spans _ _ _ by unfold Buffer.spans; omega)

theorem readChild_eq (v : Node K) (h : i < capacity K) : v.readChild i = .ok (v.child i) := by
  have hin := spans_slot (K := K) h
  have hsucc := slotStart_succ (K := K) i
  exact if_pos (show Buffer.spans _ _ _ by unfold Buffer.spans; omega)

theorem readSlots_eq (v : Node K) (hle : start ≤ stop) (h : stop ≤ capacity K) :
    v.readSlots start stop =
      .ok (v.page.read (slotStart K start) (slotStart K stop - slotStart K start)) :=
  if_pos ⟨hle, slotStart_le_pageSize h⟩

omit [Key K] in
theorem requireSlot_eq (h : i < v.size) : v.requireSlot i = .ok () := if_pos h

theorem keyAt_eq (hsize : v.size ≤ capacity K) (h : i < v.size) : v.keyAt i = .ok (v.key i) := by
  rw [keyAt, requireSlot_eq h, ← readKey_eq v (by omega)]
  rfl

theorem childAt_eq (hsize : v.size ≤ capacity K) (h : i < v.size) :
    v.childAt i = .ok (v.child i) := by
  rw [childAt, requireSlot_eq h, ← readChild_eq v (by omega)]
  rfl

theorem keyAt_at (hsize : v.size ≤ capacity K) (h : v.slots = a ++ e :: b) :
    v.keyAt a.length = .ok e.1 := by
  have hlen := size_at h
  rw [keyAt_eq hsize (by omega), ← slot_at h]
  rfl

theorem childAt_at (hsize : v.size ≤ capacity K) (h : v.slots = a ++ e :: b) :
    v.childAt a.length = .ok e.2 := by
  have hlen := size_at h
  rw [childAt_eq hsize (by omega), ← slot_at h]
  rfl

/-! ### Sound nodes -/

namespace Sound

theorem size_le_capacity (h : v.Sound) : v.size ≤ capacity K :=
  Nat.le_trans h.size_le h.maxSize_lt

theorem of_same (h : v.Sound) (hsame : Same v w) (hpos : 1 ≤ w.size)
    (hle : w.size ≤ v.maxSize + 1) : w.Sound where
  two_le_maxSize := by rw [hsame.maxSize]; exact h.two_le_maxSize
  maxSize_lt := by rw [hsame.maxSize]; exact h.maxSize_lt
  size_pos := hpos
  size_le := by rw [hsame.maxSize]; exact hle

theorem slots_ne_nil (h : v.Sound) : v.slots ≠ [] := by
  rw [← List.length_pos_iff, length_slots]
  exact h.size_pos

theorem exists_cons (h : v.Sound) : ∃ x l, v.slots = x :: l :=
  List.exists_cons_of_ne_nil h.slots_ne_nil

theorem exists_snoc (h : v.Sound) : ∃ l x, v.slots = l ++ [x] := by
  rcases List.eq_nil_or_concat v.slots with hnil | ⟨l, x, hl⟩
  · exact absurd hnil h.slots_ne_nil
  · exact ⟨l, x, by rw [hl, List.concat_eq_append]⟩

end Sound

theorem exists_cons_cons (h : 2 ≤ v.size) : ∃ x y l, v.slots = x :: y :: l := by
  rw [← length_slots] at h
  match v.slots, h with
  | x :: y :: l, _ => exact ⟨x, y, l, rfl⟩

/-- A formatted page is a sound node with one slot. -/
theorem format_eq (p : Page) (pageId parentId : PageId) {maxSize : Nat}
    (h : 2 ≤ maxSize ∧ maxSize < capacity K) :
    ∃ w : Node K, format p pageId parentId maxSize = .ok w ∧ w.Sound ∧ w.size = 1 ∧
      w.maxSize = maxSize ∧ w.pageId = pageId ∧ w.parentId = parentId := by
  refine ⟨_, by simp only [format, require, if_pos h, bind, Except.bind]; rfl, ?_⟩
  generalize hw : (⟨_⟩ : Node K) = w
  have hheader : w.header = ⟨1, UInt32.ofNat maxSize, pageId, parentId⟩ := by
    have hchild : nodeStart ≤ childStart K 0 := Nat.le_add_right_of_le (nodeStart_le 0)
    rw [← hw, Buffer.setU32, header_write _ _ hchild, header_write _ _ (nodeStart_le 0),
      header_store]
  have hcapacity := capacity_lt (K := K)
  have hsize : w.size = 1 := by
    rw [size_eq, hheader]
    rfl
  have hmaxSize : w.maxSize = maxSize := by
    rw [maxSize_eq, hheader, UInt32.toNat_ofNat', Nat.mod_eq_of_lt (by omega)]
  have hpageId : w.pageId = pageId := by rw [pageId_eq, hheader]
  have hparentId : w.parentId = parentId := by rw [parentId_eq, hheader]
  exact ⟨⟨by omega, by omega, by omega, by omega⟩, hsize, hmaxSize, hpageId, hparentId⟩

/-! ### Places of children -/

theorem findChild_eq (id : PageId) {count : Nat} :
    ∀ i, i + count ≤ capacity K → v.findChild id i count =
      .ok (i + ((List.range' i count).map v.slot).findIdx fun e => e.2 = id) := by
  induction count with
  | zero => exact fun i _ => rfl
  | succ count ih =>
      intro i hin
      simp only [findChild, readChild_eq v (show i < capacity K by omega), bind, Except.bind,
        List.range'_succ, List.map_cons, List.findIdx_cons]
      by_cases hid : v.child i = id
      · rw [if_pos hid, decide_eq_true (show (v.slot i).2 = id from hid)]
        rfl
      · rw [if_neg hid, decide_eq_false (show ¬(v.slot i).2 = id from hid), ih (i + 1) (by omega),
          Nat.add_assoc, Nat.add_comm 1]
        rfl

/-- The place of a child is that of the first slot which points at it. -/
theorem childIndex_findIdx (hsize : v.size ≤ capacity K) (id : PageId) :
    v.childIndex id = .ok (v.slots.findIdx fun e => e.2 = id) := by
  rw [childIndex, findChild_eq id 0 (by omega), Nat.zero_add, ← List.range_eq_range', slots_def]

theorem childIndex_first (hsize : v.size ≤ capacity K) (hi : i < v.size) (hid : v.child i = id)
    (hfirst : ∀ j < i, v.child j ≠ id) : v.childIndex id = .ok i := by
  have hin : i < v.slots.length := by rwa [length_slots]
  have hfound : v.slots.findIdx (fun e => e.2 = id) = i := by
    rw [List.findIdx_eq hin, getElem_slots]
    refine ⟨decide_eq_true hid, fun j hj => ?_⟩
    rw [getElem_slots]
    exact decide_eq_false (hfirst j hj)
  rw [childIndex_findIdx hsize, hfound]

theorem childIndex_eq (hsize : v.size ≤ capacity K) (hslots : v.slots = a ++ e :: b)
    (hfirst : e.2 ∉ a.map Prod.snd) : v.childIndex e.2 = .ok a.length := by
  have hlen := size_at hslots
  obtain ⟨-, hchild⟩ := Prod.mk.inj (slot_at hslots)
  refine childIndex_first hsize (by omega) hchild fun j hj heq => hfirst ?_
  have hslot : v.slot j = a[j] := by
    rw [slot_of_slots hslots (by simp; omega), List.getElem_append_left hj]
  rw [← heq, show v.child j = (v.slot j).2 from rfl, hslot]
  exact List.mem_map_of_mem (List.getElem_mem hj)

/-! ### Single stores -/

namespace Edit

variable {Q : Unit → Node K → Prop} {E : Fault → Node K → Prop}

theorem putKey_ends (hi : i < capacity K) (h : Q () (v.withKey i key)) :
    Ends (putKey i key) v Q E := by
  have hin := spans_slot (K := K) hi
  have hsucc := slotStart_succ (K := K) i
  have hwidth := Key.length_encode key
  unfold childStart at hsucc
  have hspan : Buffer.spans pageSize (slotStart K i) (Key.encode key).length := by
    unfold Buffer.spans
    omega
  simp only [putKey, put, ends_bind, ends_require, ends_modify]
  exact ⟨fun _ => h, fun hno => absurd hspan hno⟩

theorem putChild_ends (hi : i < capacity K) (h : Q () (v.withChild i id)) :
    Ends (putChild i id) v Q E := by
  have hin := spans_slot (K := K) hi
  have hsucc := slotStart_succ (K := K) i
  have hwidth : id.encode.length = PageId.width := LittleEndian.length_encode ..
  have hspan : Buffer.spans pageSize (childStart K i) id.encode.length := by
    unfold Buffer.spans
    omega
  simp only [putChild, put, ends_bind, ends_require, ends_modify]
  exact ⟨fun _ => h, fun hno => absurd hspan hno⟩

theorem put_ends (hle : start ≤ stop) (hdest : dest + (stop - start) ≤ capacity K)
    (h : Q () (v.copied u start stop dest)) :
    Ends (put (slotStart K dest)
      (u.page.read (slotStart K start) (slotStart K stop - slotStart K start))) v Q E := by
  have hin := slotStart_le_pageSize (K := K) hdest
  have hsource := slotStart_sub (K := K) hle
  have htarget := slotStart_add (K := K) dest (stop - start)
  simp only [put, ends_bind, ends_require, ends_modify, Buffer.length_read]
  refine ⟨fun _ => h, fun hno => absurd ?_ hno⟩
  unfold Buffer.spans
  omega

theorem shift_ends (hstop : stop ≤ capacity K) (hle : start ≤ stop)
    (hdest : dest + (stop - start) ≤ capacity K) (h : Q () (v.copied v start stop dest)) :
    Ends (shift start stop dest) v Q E := by
  simp only [shift, ends_bind, ends_get, ends_answer (readSlots_eq v hle hstop)]
  exact put_ends hle hdest h

end Edit

/-! ### Stores on lists -/

theorem slot_withKey (v : Node K) {j : Nat} (hi : i < capacity K) :
    (v.withKey i key).slot j = if j = i then (key, v.child j) else v.slot j := by
  rw [slot, key_withKey v key (spans_slot hi), child_withKey]
  split <;> rfl

theorem slot_withChild (v : Node K) {j : Nat} (hi : i < capacity K) :
    (v.withChild i id).slot j = if j = i then (v.key j, id) else v.slot j := by
  rw [slot, child_withChild v id (spans_slot hi), key_withChild]
  split <;> rfl

omit [Key K] in
theorem size_of_header (h : w.header = v.header) : w.size = v.size := by
  rw [size_eq, size_eq, h]

theorem slots_set {x : K × PageId} (hheader : w.header = v.header)
    (hslot : ∀ j, w.slot j = if j = i then x else v.slot j) : w.slots = v.slots.set i x := by
  refine slots_eq (by rw [size_of_header hheader, List.length_set, length_slots]) fun j hj => ?_
  rw [List.getElem_set, hslot]
  by_cases hji : j = i
  · rw [if_pos hji, if_pos hji.symm]
  · rw [if_neg hji, if_neg (Ne.symm hji), getElem_slots]

theorem slots_withKey (v : Node K) (key : K) (hi : i < capacity K) :
    (v.withKey i key).slots = v.slots.set i (key, v.child i) := by
  refine slots_set (header_withKey v key) fun j => ?_
  rw [slot_withKey v hi]
  split
  · next hj => rw [hj]
  · rfl

theorem slots_withChild (v : Node K) (id : PageId) (hi : i < capacity K) :
    (v.withChild i id).slots = v.slots.set i (v.key i, id) := by
  refine slots_set (header_withChild v id) fun j => ?_
  rw [slot_withChild v hi]
  split
  · next hj => rw [hj]
  · rfl

theorem slots_withKey_at (hsize : v.size ≤ capacity K) (hslots : v.slots = a ++ e :: b) (key : K) :
    (v.withKey a.length key).slots = a ++ (key, e.2) :: b := by
  have hlen := size_at hslots
  obtain ⟨-, hchild⟩ := Prod.mk.inj (slot_at hslots)
  rw [slots_withKey v key (by omega), hchild, hslots, List.set_append_right _ _ (Nat.le_refl _),
    Nat.sub_self, List.set_cons_zero]

theorem slots_withChild_at (hsize : v.size ≤ capacity K) (hslots : v.slots = a ++ e :: b)
    (id : PageId) : (v.withChild a.length id).slots = a ++ (e.1, id) :: b := by
  have hlen := size_at hslots
  obtain ⟨hkey, -⟩ := Prod.mk.inj (slot_at hslots)
  rw [slots_withChild v id (by omega), hkey, hslots, List.set_append_right _ _ (Nat.le_refl _),
    Nat.sub_self, List.set_cons_zero]

/-- The first slots of a node whose size is set to their number. -/
theorem slots_setSize (v : Node K) {count : Nat} (hcount : count ≤ v.size)
    (hsize : v.size ≤ capacity K) : (v.setSize count).slots = v.slots.take count := by
  refine slots_eq (by rw [size_setSize (by omega)]; simp; omega) fun j hj => ?_
  rw [slot_setSize, List.getElem_take, getElem_slots]

/-- One more slot behind the last one. -/
def push (v : Node K) (e : K × PageId) : Node K :=
  ((v.withKey v.size e.1).withChild v.size e.2).setSize (v.size + 1)

theorem same_push (v : Node K) (e : K × PageId) : Same v (v.push e) :=
  (Same.of_header (by simp)).setSize _

theorem size_push (v : Node K) (e : K × PageId) (h : v.size < capacity K) :
    (v.push e).size = v.size + 1 := size_setSize h _

theorem slot_push (v : Node K) (e : K × PageId) (h : v.size < capacity K) {j : Nat} :
    (v.push e).slot j = if j = v.size then e else v.slot j := by
  rw [push, slot_setSize, slot_withChild _ h, key_withKey _ _ (spans_slot h), slot_withKey _ h]
  by_cases hj : j = v.size
  · rw [if_pos hj, if_pos hj, if_pos hj]
  · rw [if_neg hj, if_neg hj, if_neg hj]

theorem slot_push_size (v : Node K) (e : K × PageId) (h : v.size < capacity K) :
    (v.push e).slot v.size = e := (slot_push v e h).trans (if_pos rfl)

theorem slots_push (v : Node K) (e : K × PageId) (h : v.size < capacity K) :
    (v.push e).slots = v.slots ++ [e] := by
  refine slots_eq (by rw [size_push v e h]; simp) fun j hj => ?_
  rw [List.length_append, length_slots, List.length_singleton] at hj
  rw [slot_push v e h]
  by_cases hj' : j = v.size
  · rw [if_pos hj', List.getElem_append_right (by simp; omega)]
    simp [hj']
  · rw [if_neg hj', List.getElem_append_left (by simp; omega), getElem_slots]

/-- The slots behind slot `i` are moved down over it. -/
def erased (v : Node K) (i : Nat) : Node K :=
  (v.copied v (i + 1) v.size i).setSize (v.size - 1)

theorem same_erased (v : Node K) (i : Nat) : Same v (v.erased i) :=
  (Same.of_header (by simp)).setSize _

theorem size_erased (v : Node K) (hsize : v.size ≤ capacity K) :
    (v.erased i).size = v.size - 1 := size_setSize (by omega) _

theorem slots_erased (v : Node K) (hsize : v.size ≤ capacity K) (hi : i < v.size) :
    (v.erased i).slots = v.slots.eraseIdx i := by
  refine slots_eq ?_ fun j hj => ?_
  · rw [size_erased v hsize, List.length_eraseIdx, length_slots, if_pos hi]
  · rw [List.length_eraseIdx, length_slots, if_pos hi] at hj
    rw [erased, slot_setSize, slot_copied _ _ (by omega) (slotStart_le_pageSize (by omega)),
      List.getElem_eraseIdx]
    by_cases hj' : j < i
    · rw [if_neg (by omega), dif_pos hj', getElem_slots]
    · rw [if_pos (by omega), dif_neg hj', getElem_slots]
      exact congrArg v.slot (by omega)

/-- A slot between slot `i` and those behind it, which move up. -/
def inserted (v : Node K) (i : Nat) (key : K) (id : PageId) : Node K :=
  (((v.copied v (i + 1) v.size (i + 2)).withKey (i + 1) key).withChild (i + 1) id).setSize
    (v.size + 1)

theorem same_inserted (v : Node K) (i : Nat) (key : K) (id : PageId) :
    Same v (v.inserted i key id) := (Same.of_header (by simp)).setSize _

theorem size_inserted (v : Node K) (h : v.size < capacity K) :
    (v.inserted i key id).size = v.size + 1 := size_setSize h _

theorem slots_inserted (v : Node K) (key : K) (id : PageId) (h : v.size < capacity K)
    (hi : i < v.size) : (v.inserted i key id).slots = v.slots.insertIdx (i + 1) (key, id) := by
  refine slots_eq ?_ fun j hj => ?_
  · rw [size_inserted v h, List.length_insertIdx_of_le_length (by simp; omega), length_slots]
  · rw [List.length_insertIdx_of_le_length (by simp; omega), length_slots] at hj
    rw [inserted, slot_setSize, slot_withChild _ (by omega),
      key_withKey _ _ (spans_slot (by omega)), slot_withKey _ (by omega),
      slot_copied _ _ (by omega) (slotStart_le_pageSize (by omega))]
    rcases Nat.lt_trichotomy j (i + 1) with hj' | rfl | hj'
    · rw [if_neg (by omega), if_neg (by omega), if_neg (by omega),
        List.getElem_insertIdx_of_lt hj', getElem_slots]
    · rw [if_pos rfl, if_pos rfl, List.getElem_insertIdx_self]
    · rw [if_neg (by omega), if_neg (by omega), if_pos (by omega),
        List.getElem_insertIdx_of_gt hj', getElem_slots]
      exact congrArg v.slot (by omega)

/-- The slots of `u` from `start` on in the place of all slots. -/
def filled (v u : Node K) (start : Nat) : Node K :=
  (v.copied u start u.size 0).setSize (u.size - start)

theorem same_filled (v u : Node K) (start : Nat) : Same v (v.filled u start) :=
  (Same.of_header (by simp)).setSize _

theorem size_filled (hfit : u.size - start ≤ capacity K) :
    (v.filled u start).size = u.size - start := size_setSize hfit _

theorem slots_filled (hstart : start ≤ u.size) (hfit : u.size - start ≤ capacity K) :
    (v.filled u start).slots = u.slots.drop start := by
  refine slots_eq ?_ fun j hj => ?_
  · rw [size_filled hfit, List.length_drop, length_slots]
  · rw [List.length_drop, length_slots] at hj
    rw [filled, slot_setSize, slot_copied _ _ hstart (slotStart_le_pageSize (by omega)),
      if_pos (by omega), List.getElem_drop, getElem_slots, Nat.sub_zero]

/-- The slots of `u` from `start` on behind those of `v`. -/
def appended (v u : Node K) (start : Nat) : Node K :=
  (v.copied u start u.size v.size).setSize (v.size + (u.size - start))

theorem same_appended (v u : Node K) (start : Nat) : Same v (v.appended u start) :=
  (Same.of_header (by simp)).setSize _

theorem size_appended (hfit : v.size + (u.size - start) ≤ capacity K) :
    (v.appended u start).size = v.size + (u.size - start) := size_setSize hfit _

theorem slots_appended (hstart : start ≤ u.size) (hfit : v.size + (u.size - start) ≤ capacity K) :
    (v.appended u start).slots = v.slots ++ u.slots.drop start := by
  refine slots_eq ?_ fun j hj => ?_
  · rw [size_appended hfit, List.length_append, List.length_drop, length_slots, length_slots]
  · rw [List.length_append, List.length_drop, length_slots, length_slots] at hj
    rw [appended, slot_setSize, slot_copied _ _ hstart (slotStart_le_pageSize (by omega))]
    by_cases hj' : j < v.size
    · rw [if_neg (by omega), List.getElem_append_left (by simpa using hj'), getElem_slots]
    · rw [if_pos (by omega), List.getElem_append_right (by simpa using hj'), List.getElem_drop,
        getElem_slots, length_slots]

/-! ### Nodes with given slots -/

/-- The node with the given slots, as far as they fit. -/
def ofSlots (pageId parentId : PageId) (maxSize : Nat) (l : List (K × PageId)) : Node K :=
  l.foldl push ⟨NodeHeader.store ⟨0, UInt32.ofNat maxSize, pageId, parentId⟩ Page.zero⟩

theorem foldl_push (l : List (K × PageId)) :
    ∀ v : Node K, v.size + l.length ≤ capacity K →
      Same v (l.foldl push v) ∧ (l.foldl push v).slots = v.slots ++ l := by
  induction l with
  | nil => exact fun v _ => ⟨Same.refl v, (List.append_nil _).symm⟩
  | cons e l ih =>
      intro v h
      rw [List.length_cons] at h
      have hslots := slots_push v e (by omega)
      have hsize := size_push v e (by omega)
      obtain ⟨hrest, hlist⟩ := ih (v.push e) (by omega)
      rw [List.foldl_cons, hlist, hslots, List.append_assoc]
      exact ⟨(v.same_push e).trans hrest, rfl⟩

/-- Every list of slots up to the capacity is that of a node. -/
theorem ofSlots_eq (pageId parentId : PageId) (maxSize : Nat) (l : List (K × PageId))
    (hmax : maxSize < capacity K) (h : l.length ≤ capacity K) :
    (ofSlots pageId parentId maxSize l).slots = l ∧
      (ofSlots pageId parentId maxSize l).maxSize = maxSize ∧
      (ofSlots pageId parentId maxSize l).pageId = pageId ∧
      (ofSlots pageId parentId maxSize l).parentId = parentId := by
  have hheader := header_store (K := K) ⟨0, UInt32.ofNat maxSize, pageId, parentId⟩ Page.zero
  unfold ofSlots
  generalize (⟨_⟩ : Node K) = v at hheader ⊢
  have hcapacity := capacity_lt (K := K)
  have hsize : v.size = 0 := by
    rw [size_eq, hheader]
    rfl
  obtain ⟨hsame, hslots⟩ := foldl_push l v (by omega)
  have hnil : v.slots = [] := by rw [slots_def, hsize]; rfl
  refine ⟨by rw [hslots, hnil, List.nil_append], ?_, ?_, ?_⟩
  · rw [hsame.maxSize, maxSize_eq, hheader, UInt32.toNat_ofNat', Nat.mod_eq_of_lt (by omega)]
  · rw [hsame.pageId, pageId_eq, hheader]
  · rw [hsame.parentId, parentId_eq, hheader]

theorem ofSlots_sound (pageId parentId : PageId) (maxSize : Nat) (l : List (K × PageId))
    (hmax : 2 ≤ maxSize ∧ maxSize < capacity K) (h : 1 ≤ l.length ∧ l.length ≤ maxSize + 1) :
    (ofSlots pageId parentId maxSize l).Sound := by
  obtain ⟨hslots, hmaxSize, _⟩ := ofSlots_eq pageId parentId maxSize l hmax.2 (by omega)
  have hsize := size_of_slots hslots
  exact ⟨by omega, by omega, by omega, by omega⟩

/-! ### Edits on lists -/

theorem insertIdx_behind {α : Type} (a b : List α) (e x : α) :
    (a ++ e :: b).insertIdx (a.length + 1) x = a ++ e :: x :: b := by
  induction a with
  | nil => rfl
  | cons y a ih => simpa using ih

theorem eraseIdx_behind {α : Type} (a b : List α) (e x : α) :
    (a ++ e :: x :: b).eraseIdx (a.length + 1) = a ++ e :: b := by
  rw [List.eraseIdx_append_of_length_le (Nat.le_succ _)]
  simp

namespace Edit

/-- Insert behind the first slot that points at a child. -/
theorem insertAfter_eq (hv : v.Sound) (hfit : v.size ≤ v.maxSize) {old : PageId}
    (hindex : v.childIndex old = .ok i) (hi : i < v.size) :
    insertAfter old key id v = .ok (v.size + 1) (v.inserted i key id) := by
  have hmax := hv.maxSize_lt
  apply Ends.eq_ok
  simp only [insertAfter, resize, ends_bind, ends_get, ends_require, ends_modify, ends_pure,
    ends_answer hindex]
  refine ⟨fun _ => ⟨fun _ => ?_, fun hno => hno hi⟩, fun hno => hno hfit⟩
  apply shift_ends (by omega) (by omega) (by omega)
  apply putKey_ends (by omega)
  apply putChild_ends (by omega)
  exact ⟨trivial, rfl⟩

theorem insertAfter_answers (hv : v.Sound) (hfit : v.size ≤ v.maxSize)
    (hslots : v.slots = a ++ e :: b) (hfirst : e.2 ∉ a.map Prod.snd) :
    (insertAfter e.2 key id).Answers v fun n w =>
      n = v.size + 1 ∧ Same v w ∧ w.slots = a ++ e :: (key, id) :: b := by
  have hmax := hv.maxSize_lt
  have hsize := size_at hslots
  have hindex := childIndex_eq hv.size_le_capacity hslots hfirst
  refine ⟨_, _, insertAfter_eq hv hfit hindex (by omega), rfl, same_inserted .., ?_⟩
  rw [slots_inserted v key id (by omega) (by omega), hslots, insertIdx_behind]

theorem erase_eq (hsize : v.size ≤ capacity K) (hi : i < v.size) :
    erase i v = .ok () (v.erased i) := by
  apply Ends.eq_ok
  simp only [erase, resize, ends_bind, ends_get, ends_modify, ends_answer (requireSlot_eq hi)]
  apply shift_ends hsize (by omega) (by omega)
  exact ⟨trivial, rfl⟩

theorem erase_answers (hv : v.Sound) (hi : i < v.size) :
    (erase i).Answers v fun _ w => Same v w ∧ w.slots = v.slots.eraseIdx i :=
  ⟨(), _, erase_eq hv.size_le_capacity hi, v.same_erased i, v.slots_erased hv.size_le_capacity hi⟩

/-- The slots of `u` from `start` on as the only slots of a fresh node. -/
theorem fill_eq (hv : v.Sound) (hone : v.size = 1) (hstart : start ≤ u.size)
    (hfit : u.size - start ≤ v.maxSize) :
    fill (u.page.read (slotStart K start) (slotStart K u.size - slotStart K start))
      (u.size - start) v = .ok () (v.filled u start) := by
  have hmax := hv.maxSize_lt
  apply Ends.eq_ok
  simp only [fill, resize, ends_bind, ends_get, ends_modify, ends_require]
  refine ⟨fun _ => ⟨fun _ => ⟨fun _ => ?_, fun hno => hno ?_⟩, fun hno => hno hfit⟩,
    fun hno => hno hone⟩
  · apply put_ends hstart (by omega)
    exact ⟨trivial, rfl⟩
  · rw [Buffer.length_read, slotStart_sub hstart]

/-- The slots of `u` from `start` on behind those of a node. -/
theorem append_eq (hv : v.Sound) (hstart : start ≤ u.size)
    (hfit : v.size + (u.size - start) ≤ v.maxSize) :
    append (u.page.read (slotStart K start) (slotStart K u.size - slotStart K start))
      (u.size - start) v = .ok () (v.appended u start) := by
  have hmax := hv.maxSize_lt
  have hcapacity := capacity_lt (K := K)
  have hword : UInt64.size = 18446744073709551616 := rfl
  apply Ends.eq_ok
  simp only [append, resize, ends_bind, ends_get, ends_modify, ends_require]
  refine ⟨fun _ => ⟨fun _ => ⟨fun _ => ?_, fun hno => hno ?_⟩, fun hno => hno hfit⟩,
    fun hno => hno (by omega)⟩
  · apply put_ends hstart (by omega)
    exact ⟨trivial, rfl⟩
  · rw [Buffer.length_read, slotStart_sub hstart]

end Edit

end Node

end PagedIndex
