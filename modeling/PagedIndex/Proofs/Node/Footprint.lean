import PagedIndex.Proofs.Node.Neighbours
import PagedIndex.Proofs.Page.Stamp

/-! # What a store leaves alone

A store in the slots of a node changes bytes behind the header, and no byte behind the slots that it
reaches: `Framed m` says that two nodes differ at most in the size and in their first `m` slots.
Inside that frame a node is told by its slots, since key and child together are all the bytes of a
slot; `Framed.byte_eq` brings an equation between slots down to the bytes. -/

namespace PagedIndex

namespace Buffer

variable {n : Nat}

theorem byte_of_read {a b : Buffer n} {start len i : Nat}
    (h : a.read start len = b.read start len) (hi : start ≤ i) (hlt : i < start + len) :
    a.byte i = b.byte i := by
  obtain ⟨k, rfl⟩ := Nat.exists_eq_add_of_le hi
  have ha : k < (a.read start len).length := by rw [length_read]; omega
  have hb : k < (b.read start len).length := by rw [length_read]; omega
  rw [← getElem_read a start len k ha, ← getElem_read b start len k hb]
  simp only [h]

theorem read_of_u32 {a b : Buffer n} {start : Nat} (h : a.u32 start = b.u32 start) :
    a.read start 4 = b.read start 4 := by
  rw [← encode_u32, ← encode_u32, h]

end Buffer

namespace Node

variable {K : Type} [Key K] {u v w : Node K} {i j k m start stop dest : Nat} {key : K} {id : PageId}

/-! ### Frames -/

/-- Nothing differs but the size and the first `m` slots. -/
structure Framed (m : Nat) (v w : Node K) : Prop where
  head : ∀ i < PageHeader.width, w.page.byte i = v.page.byte i
  same : Same v w
  rest : ∀ i, slotStart K m ≤ i → w.page.byte i = v.page.byte i

namespace Framed

theorem refl (m : Nat) (v : Node K) : Framed m v v :=
  ⟨fun _ _ => rfl, Same.refl v, fun _ _ => rfl⟩

theorem trans (h : Framed m u v) (h' : Framed m v w) : Framed m u w where
  head i hi := (h'.head i hi).trans (h.head i hi)
  same := h.same.trans h'.same
  rest i hi := (h'.rest i hi).trans (h.rest i hi)

theorem mono (h : Framed m v w) (hle : m ≤ k) : Framed k v w :=
  ⟨h.head, h.same, fun i hi => h.rest i (Nat.le_trans (slotStart_mono hle) hi)⟩

/-- Bytes are stored behind the header and in front of slot `m`. -/
theorem write (h : Framed m v w) {bs : List UInt8} (hstart : nodeStart ≤ start)
    (hend : start + bs.length ≤ slotStart K m) : Framed m v ⟨w.page.write start bs⟩ where
  head i hi := by
    have hwidth : PageHeader.width ≤ nodeStart := by decide
    rw [Buffer.byte_write_of_lt _ _ (by omega), h.head i hi]
  same := h.same.trans (Same.of_header (header_write _ _ hstart))
  rest i hi := by rw [Buffer.byte_write_of_ge _ _ (by omega), h.rest i hi]

theorem withKey (h : Framed m v w) (hi : i < m) (key : K) : Framed m v (w.withKey i key) := by
  have hsucc := slotStart_succ (K := K) i
  have hmono := slotStart_mono (K := K) (show i + 1 ≤ m from hi)
  have hwidth := Key.length_encode key
  unfold childStart at hsucc
  exact h.write (nodeStart_le i) (by omega)

theorem withChild (h : Framed m v w) (hi : i < m) (id : PageId) :
    Framed m v (w.withChild i id) := by
  have hsucc := slotStart_succ (K := K) i
  have hmono := slotStart_mono (K := K) (show i + 1 ≤ m from hi)
  have hwidth : id.encode.length = PageId.width := LittleEndian.length_encode ..
  exact h.write (Nat.le_add_right_of_le (nodeStart_le i)) (by omega)

theorem stored (h : Framed m v w) {bs : List UInt8} {count : Nat}
    (hlen : bs.length = count * slotWidth K) (hdest : dest + count ≤ m) :
    Framed m v (w.stored dest bs) := by
  have htarget := slotStart_add (K := K) dest count
  have hmono := slotStart_mono (K := K) hdest
  exact h.write (nodeStart_le dest) (by omega)

theorem copied (h : Framed m v w) (u : Node K) (hle : start ≤ stop)
    (hdest : dest + (stop - start) ≤ m) : Framed m v (w.copied u start stop dest) :=
  h.stored ((Buffer.length_read ..).trans (slotStart_sub hle)) hdest

theorem setSize (h : Framed m v w) (count : Nat) : Framed m v (w.setSize count) where
  head i hi := by
    have hwidth : PageHeader.width = NodeHeader.sizeAt := rfl
    rw [Node.setSize, Buffer.byte_setU32 _ _ (by omega), h.head i hi]
  same := h.same.setSize count
  rest i hi := by
    have hsize : NodeHeader.sizeAt + 4 ≤ nodeStart := by decide
    have hstart := nodeStart_le (K := K) m
    rw [Node.setSize, Buffer.byte_setU32 _ _ (by omega), h.rest i hi]

end Framed

theorem framed_push (v : Node K) (e : K × PageId) : Framed (v.size + 1) v (v.push e) :=
  have hlast := Nat.lt_succ_self v.size
  (((Framed.refl _ v).withKey hlast e.1).withChild hlast e.2).setSize _

theorem framed_erased (v : Node K) (hi : i < v.size) : Framed v.size v (v.erased i) :=
  ((Framed.refl _ v).copied v (by omega) (by omega)).setSize _

theorem framed_inserted (v : Node K) (hi : i < v.size) (key : K) (id : PageId) :
    Framed (v.size + 1) v (v.inserted i key id) :=
  ((((Framed.refl _ v).copied v (by omega) (by omega)).withKey (by omega) key).withChild
    (by omega) id).setSize _

theorem framed_prepend (v : Node K) (hv : 1 ≤ v.size) (key : K) (id : PageId) :
    Framed (v.size + 1) v (v.prepend key id) :=
  ((((Framed.refl _ v).copied v (by omega) (by omega)).withKey (by omega) key).withChild
    (by omega) id).setSize _

theorem framed_withoutFirst (v : Node K) (hv : 2 ≤ v.size) : Framed v.size v v.withoutFirst := by
  have hsize : (v.withChild 0 (v.child 1)).size = v.size := size_of_header (by simp)
  have herased := framed_erased (i := 1) (v.withChild 0 (v.child 1)) (by omega)
  rw [hsize] at herased
  exact ((Framed.refl _ v).withChild (by omega) _).trans herased

/-! ### Bytes of slots -/

theorem byte_of_slot (h : w.slot j = v.slot j) (hi : slotStart K j ≤ i)
    (hlt : i < slotStart K (j + 1)) : w.page.byte i = v.page.byte i := by
  obtain ⟨hkey, hchild⟩ := Prod.mk.inj h
  have hsucc := slotStart_succ (K := K) j
  rcases Nat.lt_or_ge i (childStart K j) with hbelow | habove
  · have hread := congrArg Key.encode hkey
    rw [encode_key, encode_key] at hread
    exact Buffer.byte_of_read hread hi hbelow
  · have hread := congrArg PageId.encode hchild
    rw [encode_child, encode_child] at hread
    exact Buffer.byte_of_read hread habove (hsucc ▸ hlt)

omit [Key K] in
theorem byte_of_header (h : w.header = v.header) (hi : PageHeader.width ≤ i)
    (hlt : i < nodeStart) : w.page.byte i = v.page.byte i := by
  have hwidth : PageHeader.width = 13 := rfl
  have hstart : nodeStart = 29 := rfl
  have hfield : ∀ start, start = 13 ∨ start = 17 ∨ start = 21 ∨ start = 25 →
      w.page.u32 start = v.page.u32 start := by
    rintro start (rfl | rfl | rfl | rfl)
    · exact congrArg NodeHeader.size h
    · exact congrArg NodeHeader.maxSize h
    · exact congrArg (fun x => x.pageId.val) h
    · exact congrArg (fun x => x.parentId.val) h
  have hread := Buffer.read_of_u32 (hfield (13 + (i - 13) / 4 * 4) (by omega))
  exact Buffer.byte_of_read hread (by omega) (by omega)

omit [Key K] in
theorem Same.header_eq (h : Same v w) (hsize : w.size = v.size) : w.header = v.header := by
  have hfield : w.header.size = v.header.size := UInt32.toNat_inj.mp hsize
  rwa [Same, ← hfield] at h

/-- The physical slot that a byte behind the header lies in. -/
theorem exists_slot (hi : nodeStart ≤ i) (hlt : i < slotStart K m) :
    ∃ j < m, slotStart K j ≤ i ∧ i < slotStart K (j + 1) := by
  have hwidth : 0 < slotWidth K := Nat.lt_of_lt_of_le (by decide) (Nat.le_add_left 4 (Key.width K))
  have hmod := Nat.div_add_mod (i - nodeStart) (slotWidth K)
  have hrest := Nat.mod_lt (i - nodeStart) hwidth
  rw [Nat.mul_comm] at hmod
  refine ⟨(i - nodeStart) / slotWidth K, ?_, ?_, ?_⟩
  · refine Nat.div_lt_of_lt_mul ?_
    rw [Nat.mul_comm]
    unfold slotStart at hlt
    omega
  · unfold slotStart
    omega
  · rw [slotStart, Nat.add_mul, Nat.one_mul]
    omega

/-- Nodes of one size in a frame have a byte in common unless it lies in a slot that differs. -/
theorem Framed.byte_eq (h : Framed m v w) (hsize : w.size = v.size) (i : Nat)
    (hslot : ∀ j < m, slotStart K j ≤ i → i < slotStart K (j + 1) → w.slot j = v.slot j) :
    w.page.byte i = v.page.byte i := by
  rcases Nat.lt_or_ge i PageHeader.width with hhead | hhead
  · exact h.head i hhead
  rcases Nat.lt_or_ge i nodeStart with hheader | hheader
  · exact byte_of_header (h.same.header_eq hsize) hhead hheader
  rcases Nat.lt_or_ge i (slotStart K m) with hin | hout
  · obtain ⟨j, hj, hlo, hhi⟩ := exists_slot hheader hin
    exact byte_of_slot (hslot j hj hlo hhi) hlo hhi
  · exact h.rest i hout

/-- Nodes of one size and with the same slots in a frame are the same. -/
theorem Framed.eq (h : Framed m v w) (hsize : w.size = v.size)
    (hslot : ∀ j < m, w.slot j = v.slot j) : w = v :=
  Node.ext (Buffer.ext_byte fun i _ => h.byte_eq hsize i fun j hj _ _ => hslot j hj)

end Node

end PagedIndex
