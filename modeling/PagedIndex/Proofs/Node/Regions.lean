import PagedIndex.Proofs.Key.Codec
import PagedIndex.Proofs.Node.Edits
import PagedIndex.Proofs.Page.Stamp

/-! # The regions of a page

The bytes of a page that holds a node are divided into regions: the two headers, and of every slot
a half for the key and a half for the child.  Storing a region changes bytes of that region only
(`Region.byte_put`), reading it looks at no others (`Region.read_congr`), and no two of them overlap
(`Region.apart`).  Hence a page is a record of its regions: along any row of stores, a region reads
as what was stored there last (`Region.read_storeAll`).  `codecs_lossless_apart` puts this together
with the codecs of the values, with the checksum, and with the slots that are moved as bytes, from
node to node or within one. -/

namespace PagedIndex

namespace Buffer

variable {n : Nat}

theorem write_append (b : Buffer n) (start : Nat) (xs ys : List UInt8) :
    b.write start (xs ++ ys) = (b.write start xs).write (start + xs.length) ys := by
  induction xs generalizing b start with
  | nil => rfl
  | cons x xs ih =>
      rw [List.cons_append, write, ih, write, List.length_cons, Nat.add_right_comm, Nat.add_assoc]

theorem read_append (b : Buffer n) (start len count : Nat) :
    b.read start (len + count) = b.read start len ++ b.read (start + len) count := by
  induction len generalizing start with
  | zero => rw [Nat.zero_add]; rfl
  | succ len ih =>
      rw [Nat.add_right_comm, read, ih, read, List.cons_append, Nat.add_right_comm, Nat.add_assoc]

end Buffer

namespace NodeHeader

variable {n : Nat}

theorem store_ofBuffer (b : Buffer n) : (ofBuffer b).store b = b := by
  have hsize : (ofBuffer b).size = b.u32 sizeAt := rfl
  have hmaxSize : (ofBuffer b).maxSize = b.u32 maxSizeAt := rfl
  have hpageId : (ofBuffer b).pageId.val = b.u32 pageIdAt := rfl
  have hparentId : (ofBuffer b).parentId.val = b.u32 parentIdAt := rfl
  rw [store, hsize, Buffer.setU32_u32, hmaxSize, Buffer.setU32_u32, hpageId, Buffer.setU32_u32,
    hparentId, Buffer.setU32_u32]

theorem byte_store (h : NodeHeader) (b : Buffer n) {i : Nat}
    (hi : ¬ (sizeAt ≤ i ∧ i < sizeAt + width)) : (h.store b).byte i = b.byte i := by
  unfold sizeAt width at hi
  rw [store, Buffer.byte_setU32, Buffer.byte_setU32, Buffer.byte_setU32, Buffer.byte_setU32] <;>
    simp only [sizeAt, maxSizeAt, pageIdAt, parentIdAt] <;> omega

theorem storeFields_eq (h : NodeHeader) (b : Buffer n) (hn : nodeStart ≤ n) :
    h.storeFields b = .ok () (h.store b) := by
  have hstart : nodeStart = 29 := rfl
  have hfield : ∀ (c : Buffer n) (start : Nat) (x : UInt32), start ≤ 25 →
      storeField start x c = .ok () (c.setU32 start x) := by
    intro c start x hstart
    have hspan : Buffer.spans n start 4 := by
      unfold Buffer.spans
      omega
    refine Action.Ends.eq_ok ?_
    simp only [storeField, Action.ends_bind, Action.ends_require, Action.ends_modify]
    exact ⟨fun _ => ⟨trivial, trivial⟩, fun hno => absurd hspan hno⟩
  simp only [storeFields, bind, EStateM.bind, hfield _ sizeAt _ (by decide),
    hfield _ maxSizeAt _ (by decide), hfield _ pageIdAt _ (by decide),
    hfield _ parentIdAt _ (by decide)]
  rfl

end NodeHeader

namespace Node

open PagedIndex.Action

/-! ### Regions -/

/-- A part of the bytes of a page that has a meaning of its own. -/
inductive Region where
  | pageHeader
  | nodeHeader
  /-- The key half of a slot. -/
  | key (slot : Nat)
  /-- The child half of a slot. -/
  | child (slot : Nat)
deriving DecidableEq

namespace Region

/-- What a region holds. -/
def Value (K : Type) : Region → Type
  | pageHeader => PageHeader
  | nodeHeader => NodeHeader
  | key _ => K
  | child _ => PageId

section Geometry

variable (K : Type) [Key K]

/-- Where a region starts. -/
def start : Region → Nat
  | pageHeader => 0
  | nodeHeader => NodeHeader.sizeAt
  | key i => slotStart K i
  | child i => childStart K i

/-- Bytes taken by a region. -/
def width : Region → Nat
  | pageHeader => PageHeader.width
  | nodeHeader => NodeHeader.width
  | key _ => Key.width K
  | child _ => PageId.width

/-- The region lies in the page. -/
def Fits (a : Region) : Prop := Buffer.spans pageSize (a.start K) (a.width K)

instance (a : Region) : Decidable (a.Fits K) :=
  inferInstanceAs (Decidable (Buffer.spans _ _ _))

end Geometry

variable {K : Type} [Key K]

/-- Read a region. -/
def read : (a : Region) → Node K → Except Fault (a.Value K)
  | pageHeader, v => PageHeader.ofBuffer? v.page
  | nodeHeader, v => NodeHeader.ofBuffer? v.page
  | key i, v => v.readKey i
  | child i, v => v.readChild i

/-- Store a region. -/
def store : (a : Region) → a.Value K → Edit K Unit
  | pageHeader, h => do
    let p ← h.store? (← get).page
    set (⟨p⟩ : Node K)
  | nodeHeader, h => zoom Node.page (fun _ p => ⟨p⟩) h.storeFields
  | key i, k => Edit.putKey i k
  | child i, id => Edit.putChild i id

/-- What a region that lies in the page holds. -/
def get : (a : Region) → Node K → a.Value K
  | pageHeader, v => v.page.header
  | nodeHeader, v => v.header
  | key i, v => v.key i
  | child i, v => v.child i

/-- The page with another value in a region. -/
def put : (a : Region) → a.Value K → Node K → Node K
  | pageHeader, h, v => ⟨v.page.setHeader h⟩
  | nodeHeader, h, v => ⟨h.store v.page⟩
  | key i, k, v => v.withKey i k
  | child i, id, v => v.withChild i id

variable {a b : Region} {v w : Node K}

/-! ### Places -/

theorem width_le_start (h : a ≠ pageHeader) : PageHeader.width ≤ a.start K := by
  cases a with
  | pageHeader => exact absurd rfl h
  | nodeHeader => exact Nat.le_refl _
  | key i => exact width_le_slotStart i
  | child i => exact width_le_childStart i

theorem in_slot {i : Nat} (h : a = key i ∨ a = child i) :
    slotStart K i ≤ a.start K ∧ a.start K + a.width K ≤ slotStart K (i + 1) := by
  rw [slotStart_succ, childStart]
  rcases h with rfl | rfl
  · exact ⟨Nat.le_refl _, Nat.le_add_right _ _⟩
  · exact ⟨Nat.le_add_right _ _, Nat.le_refl _⟩

/-- Regions do not overlap. -/
theorem apart (h : a ≠ b) :
    a.start K + a.width K ≤ b.start K ∨ b.start K + b.width K ≤ a.start K := by
  have hslots : ∀ i j, (a = key i ∨ a = child i) → (b = key j ∨ b = child j) → i ≠ j →
      a.start K + a.width K ≤ b.start K ∨ b.start K + b.width K ≤ a.start K := by
    intro i j ha hb hij
    have hin := in_slot (K := K) ha
    have hjn := in_slot (K := K) hb
    have hapart := slots_apart (K := K) hij
    omega
  -- halves of two slots are apart as their slots are; in one slot the key comes first
  cases a with
  | pageHeader => exact .inl (Nat.le_trans (Nat.le_of_eq (Nat.zero_add _)) (width_le_start h.symm))
  | nodeHeader =>
      cases b with
      | pageHeader => exact .inr (Nat.le_refl _)
      | nodeHeader => exact absurd rfl h
      | key j => exact .inl (nodeStart_le j)
      | child j => exact .inl (Nat.le_add_right_of_le (nodeStart_le j))
  | key i =>
      cases b with
      | pageHeader => exact .inr (width_le_start h)
      | nodeHeader => exact .inr (nodeStart_le i)
      | key j => exact hslots i j (.inl rfl) (.inl rfl) fun hij => h (congrArg key hij)
      | child j =>
          by_cases hij : i = j
          · exact .inl (hij ▸ Nat.le_refl _)
          · exact hslots i j (.inl rfl) (.inr rfl) hij
  | child i =>
      cases b with
      | pageHeader => exact .inr (width_le_start h)
      | nodeHeader => exact .inr (Nat.le_add_right_of_le (nodeStart_le i))
      | key j =>
          by_cases hij : i = j
          · exact .inr (hij ▸ Nat.le_refl _)
          · exact hslots i j (.inr rfl) (.inl rfl) hij
      | child j => exact hslots i j (.inr rfl) (.inr rfl) fun hij => h (congrArg child hij)

/-! ### Bytes -/

/-- Reading a region looks at its bytes only. -/
theorem read_congr (h : ∀ i, a.start K ≤ i → i < a.start K + a.width K →
    w.page.byte i = v.page.byte i) : a.read w = a.read v := by
  cases a with
  | pageHeader =>
      have hwidth : PageHeader.width = 13 := rfl
      simp only [start, width] at h
      have htag := h 0 (by omega) (by omega)
      have hchecksum : w.page.u32 1 = v.page.u32 1 :=
        Buffer.u32_congr fun i _ _ => h i (by omega) (by omega)
      have hlsn : w.page.u64 5 = v.page.u64 5 :=
        Buffer.u64_congr fun i _ _ => h i (by omega) (by omega)
      show PageHeader.ofBuffer? w.page = PageHeader.ofBuffer? v.page
      simp only [PageHeader.ofBuffer?, PageHeader.ofBuffer, htag, hchecksum, hlsn]
  | nodeHeader =>
      have hfield : ∀ start, 13 ≤ start → start ≤ 25 → w.page.u32 start = v.page.u32 start :=
        fun start hlo hhi => Buffer.u32_congr fun i _ _ => by
          refine h i ?_ ?_ <;>
            simp only [Region.start, width, NodeHeader.sizeAt, NodeHeader.width] <;> omega
      show NodeHeader.ofBuffer? w.page = NodeHeader.ofBuffer? v.page
      simp only [NodeHeader.ofBuffer?, NodeHeader.ofBuffer,
        hfield NodeHeader.sizeAt (by decide) (by decide),
        hfield NodeHeader.maxSizeAt (by decide) (by decide),
        hfield NodeHeader.pageIdAt (by decide) (by decide),
        hfield NodeHeader.parentIdAt (by decide) (by decide)]
  | key i =>
      have hkey : w.key i = v.key i := congrArg Key.decode (Buffer.read_congr h)
      show w.readKey i = v.readKey i
      rw [readKey, readKey, hkey]
  | child i =>
      have hchild : w.child i = v.child i := congrArg PageId.mk (Buffer.u32_congr h)
      show w.readChild i = v.readChild i
      rw [readChild, readChild, hchild]

theorem byte_put (x : a.Value K) {i : Nat} (h : ¬ (a.start K ≤ i ∧ i < a.start K + a.width K)) :
    (a.put x v).page.byte i = v.page.byte i := by
  cases a with
  | pageHeader =>
      simp only [start, width] at h
      exact PageHeader.byte_store x v.page (by omega)
  | nodeHeader => exact NodeHeader.byte_store x v.page h
  | key j =>
      have hbyte : ∀ k : K, (v.withKey j k).page.byte i = v.page.byte i := by
        intro k
        have hwidth := Key.length_encode k
        simp only [start, width] at h
        rw [withKey, Buffer.byte_write, if_neg (by omega)]
      exact hbyte x
  | child j => exact Buffer.byte_setU32 v.page x.val h

/-! ### Reading and storing -/

theorem header_fits (h : a = pageHeader ∨ a = nodeHeader) : a.Fits K := by
  rcases h with rfl | rfl
  · exact (show 0 + PageHeader.width ≤ pageSize by decide)
  · exact (show NodeHeader.sizeAt + NodeHeader.width ≤ pageSize by decide)

theorem slot_fits {i : Nat} (h : i < capacity K) : (key i).Fits K ∧ (child i).Fits K := by
  have hin := spans_slot (K := K) h
  have hkey := (in_slot (K := K) (a := key i) (.inl rfl)).2
  have hchild := (in_slot (K := K) (a := child i) (.inr rfl)).2
  exact ⟨Nat.le_trans hkey hin, Nat.le_trans hchild hin⟩

theorem read_eq (h : a.Fits K) (v : Node K) : a.read v = .ok (a.get v) := by
  cases a with
  | pageHeader => rfl
  | nodeHeader => rfl
  | key i => exact if_pos h
  | child i => exact if_pos h

/-- A region is stored when it lies in the page, and refused otherwise; the page then stays as it
is. -/
theorem store_ends (a : Region) (x : a.Value K) (v : Node K) :
    (a.store x).Ends v (fun _ w => a.Fits K ∧ w = a.put x v)
      (fun e w => ¬ a.Fits K ∧ e = .outOfBounds ∧ w = v) := by
  have hput : ∀ (start : Nat) (bs : List UInt8), bs.length = a.width K → start = a.start K →
      (⟨v.page.write start bs⟩ : Node K) = a.put x v →
      (Edit.put start bs : Edit K Unit).Ends v (fun _ w => a.Fits K ∧ w = a.put x v)
        (fun e w => ¬ a.Fits K ∧ e = .outOfBounds ∧ w = v) := by
    intro start bs hlen hstart hbytes
    simp only [Edit.put, ends_bind, ends_require, ends_modify, hlen, hstart]
    exact ⟨fun hfits => ⟨hfits, hstart ▸ hbytes⟩, fun hno => ⟨hno, trivial, trivial⟩⟩
  cases a with
  | pageHeader => exact ⟨header_fits (.inl rfl), rfl⟩
  | nodeHeader =>
      have hstore := NodeHeader.storeFields_eq x v.page (by decide)
      exact ends_zoom.mpr ((ends_of_eq hstore).mpr ⟨header_fits (.inr rfl), rfl⟩)
  | key i => exact hput _ _ (Key.length_encode _) rfl rfl
  | child i => exact hput _ _ (LittleEndian.length_encode ..) rfl rfl

theorem store_eq (h : a.Fits K) (x : a.Value K) (v : Node K) :
    a.store x v = .ok () (a.put x v) :=
  Ends.eq_ok ((store_ends a x v).mono (fun _ _ hw => ⟨rfl, hw.2⟩) fun _ _ hno => hno.1 h)

/-- A region that is stored reads as what was stored. -/
theorem get_put (h : a.Fits K) (x : a.Value K) (v : Node K) : a.get (a.put x v) = x := by
  cases a with
  | pageHeader => exact PageHeader.ofBuffer_store x v.page (by decide)
  | nodeHeader => exact header_store x v.page
  | key i => exact key_withKey_self v x h
  | child i => exact PageId.ext (Buffer.u32_setU32_self v.page x.val h)

/-- Storing what a region reads as changes nothing; only the header of a page of no known kind is
not stored as the bytes that it was read from. -/
theorem put_get_iff (a : Region) (v : Node K) :
    a.put (a.get v) v = v ↔ (a = pageHeader → v.page.byte 0 ≤ 4) := by
  have hstored : a ≠ pageHeader → a.put (a.get v) v = v →
      (a.put (a.get v) v = v ↔ (a = pageHeader → v.page.byte 0 ≤ 4)) :=
    fun hne hput => iff_of_true hput fun h => absurd h hne
  cases a with
  | pageHeader =>
      have hiff := PageHeader.store_ofBuffer_iff v.page (by decide)
      exact Node.ext_iff.trans (hiff.trans ⟨fun h _ => h, fun h => h rfl⟩)
  | nodeHeader => exact hstored Region.noConfusion (Node.ext (NodeHeader.store_ofBuffer v.page))
  | key i => exact hstored Region.noConfusion (withKey_key v)
  | child i => exact hstored Region.noConfusion (withChild_child v)

theorem read_put_of_ne (h : a ≠ b) (x : a.Value K) (v : Node K) :
    b.read (a.put x v) = b.read v := by
  have hapart := apart (K := K) h
  exact read_congr fun i hlo hhi => byte_put x (by omega)

theorem read_updateChecksum (h : a ≠ pageHeader) (v : Node K) :
    a.read (⟨v.page.updateChecksum⟩ : Node K) = a.read v := by
  have hwidth : PageHeader.width = 13 := rfl
  have hstart := width_le_start (K := K) h
  exact read_congr fun i hlo _ => Page.updateChecksum_byte v.page (by omega)

/-! ### Rows of stores -/

/-- Store one region after the other. -/
def storeAll : List ((a : Region) × a.Value K) → Edit K Unit
  | [] => pure ()
  | s :: rest => do
    s.1.store s.2
    storeAll rest

/-- Behind a row of stores, a region that was stored reads as what was stored there last, and one
that was not stored reads as before. -/
theorem read_storeAll (l : List ((a : Region) × a.Value K)) (h : ∀ s ∈ l, s.1.Fits K)
    (v : Node K) :
    ∃ w, storeAll l v = .ok () w ∧
      (∀ b : Region, (∀ s ∈ l, s.1 ≠ b) → b.read w = b.read v) ∧
      ∀ before s after, l = before ++ s :: after → (∀ t ∈ after, t.1 ≠ s.1) →
        s.1.read w = .ok s.2 := by
  induction l generalizing v with
  | nil => exact ⟨v, rfl, fun _ _ => rfl, fun before _ _ hl => by simp at hl⟩
  | cons s rest ih =>
      have hfits : s.1.Fits K := h s List.mem_cons_self
      obtain ⟨w, hrun, hother, hlast⟩ :=
        ih (fun t ht => h t (List.mem_cons_of_mem s ht)) (s.1.put s.2 v)
      -- the first store is read behind the row unless its region is stored once more
      refine ⟨w, ?_, ?_, ?_⟩
      · simp only [storeAll, bind, EStateM.bind, store_eq hfits, hrun]
      · intro b hb
        rw [hother b fun t ht => hb t (List.mem_cons_of_mem s ht),
          read_put_of_ne (hb s List.mem_cons_self)]
      · intro before t after hl hafter
        cases before with
        | nil =>
            obtain ⟨rfl, rfl⟩ := List.cons.inj hl
            rw [hother s.1 hafter, read_eq hfits, get_put hfits]
        | cons _ before => exact hlast before t after (List.cons.inj hl).2 hafter

end Region

/-! ### Slots that move -/

namespace Edit

variable {K : Type} [Key K]

/-- Copy slots of `u`, from `start` up to `stop`, to the slots from `dest` on as bytes. -/
def copySlots (u : Node K) (start stop dest : Nat) : Edit K Unit := do
  put (slotStart K dest) (← u.readSlots start stop)

/-- Copy `count` slots of `u`, from `start` on, to the slots from `dest` on by decoding and encoding
each of them. -/
def recodeSlots (u : Node K) (start dest : Nat) : Nat → Edit K Unit
  | 0 => pure ()
  | count + 1 => do
    putKey dest (← u.readKey start)
    putChild dest (← u.readChild start)
    recodeSlots u (start + 1) (dest + 1) count

end Edit

section Moves

variable {K : Type} [Key K] {u v : Node K} {start dest count : Nat}

theorem copied_eq (u v : Node K) (start dest count : Nat) :
    v.copied u start (start + count) dest =
      ⟨v.page.write (slotStart K dest)
        (u.page.read (slotStart K start) (count * slotWidth K))⟩ := by
  rw [copied, slotStart_sub (Nat.le_add_right _ _), Nat.add_sub_cancel_left]

theorem recoded_eq (u v : Node K) (start dest : Nat) :
    (v.withKey dest (u.key start)).withChild dest (u.child start) =
      v.copied u start (start + 1) dest := by
  have hplace : childStart K dest =
      slotStart K dest + (u.page.read (slotStart K start) (Key.width K)).length := by
    rw [Buffer.length_read, childStart]
  rw [copied_eq, withChild, withKey, encode_key, encode_child, hplace, ← Buffer.write_append,
    childStart, ← Buffer.read_append, Nat.one_mul, slotWidth]

theorem copied_copied (u v : Node K) (start dest count : Nat) :
    (v.copied u start (start + 1) dest).copied u (start + 1) (start + 1 + count) (dest + 1) =
      v.copied u start (start + (count + 1)) dest := by
  have hplace : slotStart K (dest + 1) =
      slotStart K dest + (u.page.read (slotStart K start) (1 * slotWidth K)).length := by
    rw [Buffer.length_read, slotStart_add]
  rw [copied_eq, copied_eq, copied_eq, hplace, ← Buffer.write_append, slotStart_add,
    ← Buffer.read_append, ← Nat.add_mul, Nat.add_comm 1 count]

theorem recodeSlots_eq (u v : Node K) (hstart : start + count ≤ capacity K)
    (hdest : dest + count ≤ capacity K) :
    Edit.recodeSlots u start dest count v = .ok () (v.copied u start (start + count) dest) := by
  induction count generalizing start dest v with
  | zero =>
      rw [copied_eq, Nat.zero_mul]
      rfl
  | succ count ih =>
      refine Ends.eq_ok ?_
      simp only [Edit.recodeSlots, ends_bind, ends_answer (readKey_eq u (show start < _ by omega)),
        ends_answer (readChild_eq u (show start < _ by omega))]
      refine Edit.putKey_ends (by omega) (Edit.putChild_ends (by omega) ?_)
      -- the first slot has arrived as its bytes, and the others follow it side by side
      rw [recoded_eq]
      refine (ends_of_eq (ih _ (by omega) (by omega))).mpr ⟨trivial, ?_⟩
      rw [copied_copied]

theorem copySlots_eq (u v : Node K) (hstart : start + count ≤ capacity K)
    (hdest : dest + count ≤ capacity K) :
    Edit.copySlots u start (start + count) dest v =
      .ok () (v.copied u start (start + count) dest) := by
  refine Ends.eq_ok ?_
  simp only [Edit.copySlots, ends_bind, ends_answer (readSlots_eq u (Nat.le_add_right _ _) hstart)]
  exact Edit.put_ends (Nat.le_add_right _ _) (by omega) ⟨trivial, rfl⟩

/-- Slots that are shifted within a node arrive as if each of them was decoded and encoded. -/
theorem shift_eq_recodeSlots (v : Node K) (hstart : start + count ≤ capacity K)
    (hdest : dest + count ≤ capacity K) :
    Edit.shift start (start + count) dest v = Edit.recodeSlots v start dest count v :=
  (copySlots_eq v v hstart hdest).trans (recodeSlots_eq v v hstart hdest).symm

end Moves

/-! ### Codecs and pages -/

/-- Keys and page identifiers are stored without loss.  The headers and the physical slots of a page
lie in it; a region that lies in the page is read as it was stored, and stored as it was read it
changes nothing, unless it is the header of a page of no known kind; storing a region, or refusing
it, leaves every other region as it reads; and behind a row of stores a region reads as it was
stored last.  A new checksum verifies, is not changed by another one, and leaves all but itself as
it reads.  Slots that are copied or shifted as bytes are the slots that are moved by decoding and
encoding them. -/
theorem codecs_lossless_apart :
    ((Key.codec UInt32).Lossless ∧ (Key.codec UInt64).Lossless ∧ (Key.codec Int32).Lossless ∧
      (Key.codec Int64).Lossless ∧ (∀ n, (Key.codec (ByteKey n)).Lossless) ∧
      PageId.codec.Lossless) ∧
    ∀ (K : Type) [Key K] (v : Node K),
      (Region.pageHeader.Fits K ∧ Region.nodeHeader.Fits K ∧
        ∀ i < capacity K, (Region.key i).Fits K ∧ (Region.child i).Fits K) ∧
      (∀ (a : Region) (x : a.Value K), a.Fits K →
        ∃ w, a.store x v = .ok () w ∧ a.read w = .ok x) ∧
      (∀ a : Region, a.Fits K → ∃ x, a.read v = .ok x ∧
        (a.store x v = .ok () v ↔ (a = .pageHeader → v.page.byte 0 ≤ 4))) ∧
      (∀ (a b : Region) (x : a.Value K), a ≠ b →
        (a.store x).Ends v (fun _ w => b.read w = b.read v) fun _ w => b.read w = b.read v) ∧
      (∀ l : List ((a : Region) × a.Value K), (∀ s ∈ l, s.1.Fits K) →
        ∃ w, Region.storeAll l v = .ok () w ∧
          (∀ b : Region, (∀ s ∈ l, s.1 ≠ b) → b.read w = b.read v) ∧
          ∀ before (s : (a : Region) × a.Value K) after, l = before ++ s :: after →
            (∀ t ∈ after, t.1 ≠ s.1) → s.1.read w = .ok s.2) ∧
      (v.page.updateChecksum.verifyChecksum = true ∧
        v.page.updateChecksum.updateChecksum = v.page.updateChecksum ∧
        v.page.updateChecksum.header = { v.page.header with checksum := v.page.checksum } ∧
        ∀ b : Region, b ≠ .pageHeader →
          b.read (⟨v.page.updateChecksum⟩ : Node K) = b.read v) ∧
      ∀ (u : Node K) (start dest count : Nat),
        start + count ≤ capacity K → dest + count ≤ capacity K →
        (∃ w, Edit.copySlots u start (start + count) dest v = .ok () w ∧
          Edit.recodeSlots u start dest count v = .ok () w) ∧
        Edit.shift start (start + count) dest v = Edit.recodeSlots v start dest count v := by
  have hkeys := Key.codec_lossless
  refine ⟨⟨hkeys _, hkeys _, hkeys _, hkeys _, fun n => hkeys _, PageId.codec_lossless⟩, ?_⟩
  intro K _ v
  refine ⟨⟨Region.header_fits (.inl rfl), Region.header_fits (.inr rfl), fun _ => Region.slot_fits⟩,
    fun a x hfits => ?_, fun a hfits => ?_, fun a b x hne => ?_,
    fun l hl => Region.read_storeAll l hl v, ⟨?_, ?_, ?_, fun b hb => ?_⟩,
    fun u start dest count hstart hdest => ⟨?_, shift_eq_recodeSlots v hstart hdest⟩⟩
  · exact ⟨a.put x v, Region.store_eq hfits x v,
      by rw [Region.read_eq hfits, Region.get_put hfits]⟩
  · refine ⟨a.get v, Region.read_eq hfits v, ?_⟩
    rw [Region.store_eq hfits, ← Region.put_get_iff a v]
    exact ⟨fun h => (EStateM.Result.ok.inj h).2, fun h => by rw [h]⟩
  · refine (Region.store_ends a x v).mono (fun _ w hw => ?_) fun _ w hw => ?_
    · rw [hw.2, Region.read_put_of_ne hne]
    · rw [hw.2.2]
  · exact Page.verifyChecksum_updateChecksum v.page
  · exact Page.updateChecksum_updateChecksum v.page
  · exact Page.header_updateChecksum v.page
  · exact Region.read_updateChecksum hb v
  · exact ⟨_, copySlots_eq u v hstart hdest, recodeSlots_eq u v hstart hdest⟩

/-- A negative key in a run of six bytes, a key in a page of zeros, and slots of it that move. -/
theorem codecs_lossless_apart_zero :
    (∃ stored, (Key.codec Int32).store (-7) [1, 2, 3, 4, 5, 6] = .ok stored ∧
      (Key.codec Int32).load stored = .ok (-7) ∧ stored.drop 4 = [5, 6]) ∧
    (Region.key 3).Fits UInt32 ∧
    (∃ w : Node UInt32, (Region.key 3).store (5 : UInt32) ⟨Page.zero⟩ = .ok () w ∧
      (Region.key 3).read w = .ok (5 : UInt32)) ∧
    (∃ h : PageHeader, Region.pageHeader.read (⟨Page.zero⟩ : Node UInt32) = .ok h ∧
      Region.pageHeader.store h (⟨Page.zero⟩ : Node UInt32) = .ok () ⟨Page.zero⟩) ∧
    ∃ w : Node UInt32, Edit.copySlots ⟨Page.zero⟩ 1 (1 + 2) 4 ⟨Page.zero⟩ = .ok () w ∧
      Edit.recodeSlots ⟨Page.zero⟩ 1 4 2 ⟨Page.zero⟩ = .ok () w := by
  obtain ⟨⟨-, -, hint, -⟩, hpages⟩ := codecs_lossless_apart
  obtain ⟨-, hstored, hread, -, -, -, hmoved⟩ := hpages UInt32 ⟨Page.zero⟩
  obtain ⟨stored, hstore, hload, -, hrest⟩ := hint.load_store (-7) [1, 2, 3, 4, 5, 6] (by decide)
  have hfits : (Region.key 3).Fits UInt32 := by decide
  obtain ⟨h, hheader, hsame⟩ := hread .pageHeader (Region.header_fits (.inl rfl))
  have htag : Page.zero.byte 0 ≤ 4 := by
    rw [Page.byte_zero]
    decide
  have hput := hstored (.key 3) (5 : UInt32) hfits
  have hback := hsame.mpr fun _ => htag
  have hcopied := (hmoved ⟨Page.zero⟩ 1 4 2 (by decide) (by decide)).1
  exact ⟨⟨stored, hstore, hload, hrest⟩, hfits, hput, ⟨h, hheader, hback⟩, hcopied⟩

end Node

end PagedIndex
