import PagedIndex.Node.Edit
import PagedIndex.Proofs.Page.Header

/-! # Slots

A node is a header and a list of slots.  Each way in which an edit stores bytes (`withKey`,
`withChild`, `copied` and `setSize`) is described here by what it does to the header and to every
single slot; `slots_eq` puts slots together to a list again. -/

namespace PagedIndex

namespace Buffer

variable {n : Nat}

theorem read_write_part (b : Buffer n) (bs : List UInt8) {start d count : Nat}
    (hin : start + bs.length ≤ n) (h : d + count ≤ bs.length) :
    (b.write start bs).read (start + d) count = (bs.drop d).take count := by
  apply List.ext_getElem (by simp; omega)
  intro i hi _
  rw [length_read] at hi
  have hshift : start + d + i - start = d + i := by omega
  rw [getElem_read, byte_write, if_pos (by omega), hshift, List.getElem_take, List.getElem_drop]
  exact (List.getElem_eq_getD 0).symm

theorem read_part (b : Buffer n) {start len d count : Nat} (h : d + count ≤ len) :
    ((b.read start len).drop d).take count = b.read (start + d) count := by
  apply List.ext_getElem (by simp; omega)
  intro i hi _
  rw [List.getElem_take, List.getElem_drop, getElem_read, getElem_read, Nat.add_assoc]

theorem u32_setU32_of_disjoint (b : Buffer n) {start i : Nat} (x : UInt32)
    (h : i + 4 ≤ start ∨ start + 4 ≤ i) : (b.setU32 start x).u32 i = b.u32 i := by
  rw [setU32, u32_write_of_disjoint]
  rwa [LittleEndian.length_encode]

end Buffer

/-- What is stored behind the header of a page leaves it alone. -/
theorem Page.header_write (p : Page) {start : Nat} (bs : List UInt8)
    (h : PageHeader.width ≤ start) : Page.header (p.write start bs) = p.header := by
  have hwidth : PageHeader.width = 13 := rfl
  unfold Page.header PageHeader.ofBuffer
  rw [Buffer.byte_write_of_lt _ _ (by omega), Buffer.u32_write_of_disjoint _ _ (by omega),
    Buffer.u64, Buffer.u64, Buffer.read_write_of_disjoint _ _ _ _ _ (by omega)]

namespace Node

variable {K : Type}

/-! ### Headers -/

theorem size_eq (v : Node K) : v.size = v.header.size.toNat := rfl

theorem maxSize_eq (v : Node K) : v.maxSize = v.header.maxSize.toNat := rfl

theorem pageId_eq (v : Node K) : v.pageId = v.header.pageId := rfl

theorem parentId_eq (v : Node K) : v.parentId = v.header.parentId := rfl

theorem header_write (p : Page) {start : Nat} (bs : List UInt8) (h : nodeStart ≤ start) :
    (⟨p.write start bs⟩ : Node K).header = (⟨p⟩ : Node K).header := by
  have hstart : nodeStart = 29 := rfl
  unfold header NodeHeader.ofBuffer NodeHeader.sizeAt NodeHeader.maxSizeAt NodeHeader.pageIdAt
    NodeHeader.parentIdAt
  rw [Buffer.u32_write_of_disjoint _ _ (by omega), Buffer.u32_write_of_disjoint _ _ (by omega),
    Buffer.u32_write_of_disjoint _ _ (by omega), Buffer.u32_write_of_disjoint _ _ (by omega)]

@[simp] theorem header_setSize (v : Node K) (count : Nat) :
    (v.setSize count).header = { v.header with size := UInt32.ofNat count } := by
  unfold header setSize NodeHeader.ofBuffer
  rw [Buffer.u32_setU32_self _ _ (by decide), Buffer.u32_setU32_of_disjoint _ _ (by decide),
    Buffer.u32_setU32_of_disjoint _ _ (by decide), Buffer.u32_setU32_of_disjoint _ _ (by decide)]

/-- A stored header is read back. -/
theorem header_store (h : NodeHeader) (p : Page) : (⟨h.store p⟩ : Node K).header = h := by
  have hsize : (h.store p).u32 NodeHeader.sizeAt = h.size := by
    rw [NodeHeader.store, Buffer.u32_setU32_of_disjoint _ _ (by decide),
      Buffer.u32_setU32_of_disjoint _ _ (by decide), Buffer.u32_setU32_of_disjoint _ _ (by decide),
      Buffer.u32_setU32_self _ _ (by decide)]
  have hmaxSize : (h.store p).u32 NodeHeader.maxSizeAt = h.maxSize := by
    rw [NodeHeader.store, Buffer.u32_setU32_of_disjoint _ _ (by decide),
      Buffer.u32_setU32_of_disjoint _ _ (by decide), Buffer.u32_setU32_self _ _ (by decide)]
  have hpageId : (h.store p).u32 NodeHeader.pageIdAt = h.pageId.val := by
    rw [NodeHeader.store, Buffer.u32_setU32_of_disjoint _ _ (by decide),
      Buffer.u32_setU32_self _ _ (by decide)]
  have hparentId : (h.store p).u32 NodeHeader.parentIdAt = h.parentId.val := by
    rw [NodeHeader.store, Buffer.u32_setU32_self _ _ (by decide)]
  unfold header NodeHeader.ofBuffer
  rw [hsize, hmaxSize, hpageId, hparentId]

/-- The headers differ at most in the size. -/
def Same (v w : Node K) : Prop := { w.header with size := v.header.size } = v.header

namespace Same

variable {u v w : Node K}

theorem of_header (h : w.header = v.header) : Same v w := by
  unfold Same
  rw [h]

theorem setSize (h : Same v w) (count : Nat) : Same v (w.setSize count) := by
  unfold Same at h ⊢
  rw [header_setSize]
  exact h

theorem refl (v : Node K) : Same v v := rfl

theorem trans (h : Same u v) (h' : Same v w) : Same u w := by
  unfold Same at h h' ⊢
  rw [← h, ← h']

theorem maxSize (h : Same v w) : w.maxSize = v.maxSize := by
  rw [maxSize_eq, maxSize_eq, ← h]

theorem pageId (h : Same v w) : w.pageId = v.pageId := by
  rw [pageId_eq, pageId_eq, ← h]

theorem parentId (h : Same v w) : w.parentId = v.parentId := by
  rw [parentId_eq, parentId_eq, ← h]

end Same

variable [Key K]

/-! ### Places -/

theorem slotStart_add (i d : Nat) : slotStart K (i + d) = slotStart K i + d * slotWidth K := by
  rw [slotStart, slotStart, Nat.add_mul, Nat.add_assoc]

theorem slotStart_sub {start stop : Nat} (h : start ≤ stop) :
    slotStart K stop - slotStart K start = (stop - start) * slotWidth K := by
  obtain ⟨count, rfl⟩ := Nat.exists_eq_add_of_le h
  rw [slotStart_add, Nat.add_sub_cancel_left, Nat.add_sub_cancel_left]

theorem slotStart_succ (i : Nat) : slotStart K (i + 1) = childStart K i + PageId.width := by
  rw [slotStart_add, Nat.one_mul, childStart, slotWidth, Nat.add_assoc]

theorem slotStart_mono {i j : Nat} (h : i ≤ j) : slotStart K i ≤ slotStart K j :=
  Nat.add_le_add_left (Nat.mul_le_mul_right _ h) _

/-- Different slots do not overlap. -/
theorem slots_apart {i j : Nat} (h : i ≠ j) :
    slotStart K (i + 1) ≤ slotStart K j ∨ slotStart K (j + 1) ≤ slotStart K i :=
  (Nat.lt_or_gt_of_ne h).imp slotStart_mono slotStart_mono

theorem nodeStart_le (i : Nat) : nodeStart ≤ slotStart K i := Nat.le_add_right _ _

theorem width_le_slotStart (i : Nat) : PageHeader.width ≤ slotStart K i :=
  Nat.le_trans (by decide) (nodeStart_le i)

theorem width_le_childStart (i : Nat) : PageHeader.width ≤ childStart K i :=
  Nat.le_add_right_of_le (width_le_slotStart i)

theorem slotStart_le_pageSize {i : Nat} (h : i ≤ capacity K) : slotStart K i ≤ pageSize := by
  have hmul : i * slotWidth K ≤ pageSize - nodeStart :=
    Nat.le_trans (Nat.mul_le_mul_right _ h) (Nat.div_mul_le_self _ _)
  have hstart : nodeStart ≤ pageSize := by decide
  unfold slotStart
  omega

theorem capacity_lt : capacity K < 4096 := by
  have hdiv : capacity K ≤ pageSize - nodeStart := Nat.div_le_self _ _
  have hpage : pageSize - nodeStart = 4067 := rfl
  omega

/-! ### Stores -/

/-- The key half of slot `i` is replaced. -/
def withKey (v : Node K) (i : Nat) (key : K) : Node K :=
  ⟨v.page.write (slotStart K i) (Key.encode key)⟩

/-- The child half of slot `i` is replaced. -/
def withChild (v : Node K) (i : Nat) (id : PageId) : Node K :=
  ⟨v.page.write (childStart K i) id.encode⟩

/-- Slots given as bytes are stored in the slots from `dest` on. -/
def stored (v : Node K) (dest : Nat) (bs : List UInt8) : Node K :=
  ⟨v.page.write (slotStart K dest) bs⟩

/-- The slots of `u` from `start` up to `stop` are copied to the slots from `dest` on. -/
def copied (v u : Node K) (start stop dest : Nat) : Node K :=
  ⟨v.page.write (slotStart K dest)
    (u.page.read (slotStart K start) (slotStart K stop - slotStart K start))⟩

/-- Slot `i`. -/
def slot (v : Node K) (i : Nat) : K × PageId := (v.key i, v.child i)

/-- Slot `i` of a run of slots given as bytes. -/
def slotOf (K : Type) [Key K] (bs : List UInt8) (i : Nat) : K × PageId :=
  (Key.decode ((bs.drop (i * slotWidth K)).take (Key.width K)),
    PageId.decode ((bs.drop (i * slotWidth K + Key.width K)).take PageId.width))

section Stores

variable (v u : Node K) {i j start stop dest : Nat}

/-- The key of a slot is written as the bytes that it was read from. -/
theorem encode_key : Key.encode (v.key i) = v.page.read (slotStart K i) (Key.width K) :=
  Key.encode_decode _ (Buffer.length_read ..)

theorem encode_child : (v.child i).encode = v.page.read (childStart K i) PageId.width :=
  Buffer.encode_u32 v.page (childStart K i)

theorem withKey_key : v.withKey i (v.key i) = v := by
  rw [withKey, encode_key, Buffer.write_read_self]

theorem withChild_child : v.withChild i (v.child i) = v := by
  rw [withChild, encode_child, Buffer.write_read_self]

theorem key_withKey_self (key : K)
    (h : Buffer.spans pageSize (slotStart K i) (Key.width K)) : (v.withKey i key).key i = key := by
  have hlen := Key.length_encode key
  have hread := Buffer.read_write_self v.page (slotStart K i) (Key.encode key) (hlen.symm ▸ h)
  rw [hlen] at hread
  rw [Node.key, withKey, hread, Key.decode_encode]

theorem key_withKey (key : K) (hin : slotStart K (i + 1) ≤ pageSize) :
    (v.withKey i key).key j = if j = i then key else v.key j := by
  have hi := slotStart_succ (K := K) i
  have hj := slotStart_succ (K := K) j
  unfold childStart at hi hj
  split
  · next hji =>
      have hspan : Buffer.spans pageSize (slotStart K i) (Key.width K) := by
        unfold Buffer.spans
        omega
      rw [hji, key_withKey_self v key hspan]
  · next hji =>
      have hwidth := Key.length_encode key
      have hapart := slots_apart (K := K) hji
      unfold Node.key withKey
      rw [Buffer.read_write_of_disjoint _ _ _ _ _ (by omega)]

theorem child_withKey (key : K) : (v.withKey i key).child j = v.child j := by
  have hi := slotStart_succ (K := K) i
  have hj := slotStart_succ (K := K) j
  have hwidth := Key.length_encode key
  have hfour : PageId.width = 4 := rfl
  unfold childStart at hi hj
  unfold child withKey childStart
  rw [Buffer.u32_write_of_disjoint]
  by_cases hji : j = i
  · subst hji
    omega
  · have hapart := slots_apart (K := K) hji
    omega

theorem key_withChild (id : PageId) : (v.withChild i id).key j = v.key j := by
  have hi := slotStart_succ (K := K) i
  have hj := slotStart_succ (K := K) j
  have hwidth : id.encode.length = PageId.width := LittleEndian.length_encode ..
  unfold childStart at hi hj
  unfold Node.key withChild childStart
  rw [Buffer.read_write_of_disjoint]
  by_cases hji : j = i
  · subst hji
    omega
  · have hapart := slots_apart (K := K) hji
    omega

theorem child_withChild (id : PageId) (hin : slotStart K (i + 1) ≤ pageSize) :
    (v.withChild i id).child j = if j = i then id else v.child j := by
  have hi := slotStart_succ (K := K) i
  have hj := slotStart_succ (K := K) j
  have hwidth : id.encode.length = 4 := LittleEndian.length_encode ..
  have hfour : PageId.width = 4 := rfl
  unfold child withChild
  split
  · next hji =>
      have hspan : Buffer.spans pageSize (childStart K i) 4 := by
        unfold Buffer.spans
        omega
      rw [hji]
      exact PageId.ext (Buffer.u32_setU32_self v.page id.val hspan)
  · next hji =>
      have hapart := slots_apart (K := K) hji
      unfold childStart at hi hj ⊢
      rw [Buffer.u32_write_of_disjoint _ _ (by omega)]

/-- Slots read from a node as bytes. -/
theorem slotOf_read {count : Nat} (h : i < count) :
    slotOf K (v.page.read (slotStart K start) (count * slotWidth K)) i = v.slot (start + i) := by
  have hin : (i + 1) * slotWidth K ≤ count * slotWidth K := Nat.mul_le_mul_right _ h
  have hwidth : slotWidth K = Key.width K + PageId.width := rfl
  rw [Nat.add_mul, Nat.one_mul] at hin
  unfold slotOf slot Node.key child childStart
  rw [Buffer.read_part _ (by omega), Buffer.read_part _ (by omega), slotStart_add, Nat.add_assoc]
  rfl

/-- Stored slots are what was stored. -/
theorem slot_stored {bs : List UInt8} {count : Nat} (hlen : bs.length = count * slotWidth K)
    (hin : slotStart K (dest + count) ≤ pageSize) :
    (v.stored dest bs).slot j =
      if dest ≤ j ∧ j < dest + count then slotOf K bs (j - dest) else v.slot j := by
  have hdest := slotStart_add (K := K) dest count
  have hwidth : slotWidth K = Key.width K + PageId.width := rfl
  unfold slot Node.key child stored
  split
  · next hj =>
      obtain ⟨d, rfl⟩ := Nat.exists_eq_add_of_le hj.1
      have hd : (d + 1) * slotWidth K ≤ count * slotWidth K := Nat.mul_le_mul_right _ (by omega)
      rw [Nat.add_mul, Nat.one_mul] at hd
      have hfour : PageId.width = 4 := rfl
      rw [Nat.add_sub_cancel_left, childStart, slotStart_add, Nat.add_assoc, Buffer.u32,
        Buffer.read_write_part _ _ (by omega) (by omega),
        Buffer.read_write_part _ _ (by omega) (by omega)]
      rfl
  · next hj =>
      have hapart : slotStart K (j + 1) ≤ slotStart K dest ∨
          slotStart K (dest + count) ≤ slotStart K j := by
        rcases Nat.lt_or_ge j dest with hlt | hge
        · exact .inl (slotStart_mono hlt)
        · exact .inr (slotStart_mono (by omega))
      have hsucc := slotStart_succ (K := K) j
      have hfour : PageId.width = 4 := rfl
      unfold childStart at hsucc ⊢
      rw [Buffer.read_write_of_disjoint _ _ _ _ _ (by omega),
        Buffer.u32_write_of_disjoint _ _ (by omega)]

theorem slot_copied (hle : start ≤ stop) (hin : slotStart K (dest + (stop - start)) ≤ pageSize) :
    (v.copied u start stop dest).slot j =
      if dest ≤ j ∧ j < dest + (stop - start) then u.slot (start + (j - dest)) else v.slot j := by
  have hlen := slotStart_sub (K := K) hle
  have hcopied : v.copied u start stop dest =
      v.stored dest (u.page.read (slotStart K start) ((stop - start) * slotWidth K)) := by
    rw [copied, hlen]
    rfl
  rw [hcopied, slot_stored v (Buffer.length_read ..) hin]
  split
  · next hj => exact slotOf_read u (by omega)
  · rfl

@[simp] theorem header_withKey (key : K) : (v.withKey i key).header = v.header :=
  header_write v.page _ (nodeStart_le i)

@[simp] theorem header_withChild (id : PageId) : (v.withChild i id).header = v.header :=
  header_write v.page _ (Nat.le_trans (nodeStart_le i) (Nat.le_add_right _ _))

@[simp] theorem header_copied : (v.copied u start stop dest).header = v.header :=
  header_write v.page _ (nodeStart_le dest)

@[simp] theorem pageHeader_copied :
    (v.copied u start stop dest).page.header = v.page.header :=
  Page.header_write v.page _ (Nat.le_trans (by decide) (nodeStart_le dest))

omit [Key K] in
@[simp] theorem pageHeader_setSize (count : Nat) :
    (v.setSize count).page.header = v.page.header :=
  Page.header_write v.page _ (by decide)

@[simp] theorem slot_setSize (count : Nat) : (v.setSize count).slot i = v.slot i := by
  have hstart := nodeStart_le (K := K) i
  have hsize : NodeHeader.sizeAt + 4 ≤ nodeStart := by decide
  unfold slot Node.key child childStart setSize Buffer.setU32
  rw [Buffer.read_write_of_disjoint, Buffer.u32_write_of_disjoint] <;>
    rw [LittleEndian.length_encode] <;> omega

end Stores

/-! ### Lists of slots -/

section Lists

variable {v w : Node K} {l a b : List (K × PageId)} {e : K × PageId}

theorem slots_def (v : Node K) : v.slots = (List.range v.size).map v.slot := rfl

@[simp] theorem length_slots (v : Node K) : v.slots.length = v.size := by
  rw [slots_def, List.length_map, List.length_range]

theorem getElem_slots {j : Nat} (h : j < v.slots.length) : v.slots[j] = v.slot j := by
  simp only [slots_def, List.getElem_map, List.getElem_range]

/-- The slots of a node are told one by one. -/
theorem slots_eq (hlen : w.size = l.length) (h : ∀ j (hj : j < l.length), w.slot j = l[j]) :
    w.slots = l := by
  refine List.ext_getElem (by rw [length_slots, hlen]) fun j hj hj' => ?_
  rw [getElem_slots, h j hj']

theorem slot_of_slots {j : Nat} (h : v.slots = l) (hj : j < l.length) : v.slot j = l[j] := by
  subst h
  exact (getElem_slots hj).symm

theorem size_of_slots (h : v.slots = l) : v.size = l.length := by
  rw [← h, length_slots]

theorem slot_at (h : v.slots = a ++ e :: b) : v.slot a.length = e := by
  rw [slot_of_slots h (by simp)]
  simp

theorem size_at (h : v.slots = a ++ e :: b) : v.size = a.length + (b.length + 1) := by
  rw [size_of_slots h, List.length_append, List.length_cons]

theorem size_behind {x : K × PageId} (h : v.slots = a ++ e :: b) (h' : w.slots = a ++ e :: x :: b) :
    w.size = v.size + 1 := by
  have hv := size_at h
  have hw := size_at h'
  rw [List.length_cons] at hw
  omega

theorem size_setSize {count : Nat} (h : count ≤ capacity K) (v : Node K) :
    (v.setSize count).size = count := by
  have hlt : count < 2 ^ 32 := Nat.lt_of_le_of_lt h (Nat.lt_trans capacity_lt (by decide))
  have hsize : (v.setSize count).header.size = UInt32.ofNat count := by rw [header_setSize]
  show (v.setSize count).header.size.toNat = count
  rw [hsize, UInt32.toNat_ofNat', Nat.mod_eq_of_lt hlt]

end Lists

end Node

end PagedIndex
