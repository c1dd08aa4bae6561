import PagedIndex.Page.Basic

/-! # Headers of pages

Fields are stored as the bytes that they are read from (`Buffer.setU32_u32`, `Buffer.setU64_u64`),
and a header takes the first bytes of a buffer and no others.  A header that is stored is read back
(`PageHeader.ofBuffer_store`).  The converse has one exception: an unknown tag is read as that of a
blank page, so storing the header that a buffer has changes nothing exactly when the tag is known
(`PageHeader.store_ofBuffer_iff`). -/

namespace PagedIndex

namespace Buffer

variable {n : Nat} {a b : Buffer n} {start len : Nat}

/-! ### Runs -/

theorem read_congr (h : ∀ i, start ≤ i → i < start + len → a.byte i = b.byte i) :
    a.read start len = b.read start len := by
  apply List.ext_getElem (by simp)
  intro i hi _
  rw [length_read] at hi
  rw [getElem_read, getElem_read, h (start + i) (by omega) (by omega)]

theorem write_write (b : Buffer n) (start : Nat) {xs ys : List UInt8}
    (h : xs.length = ys.length) : (b.write start xs).write start ys = b.write start ys := by
  apply ext_byte
  intro i _
  rw [byte_write, byte_write, byte_write, h]
  split <;> rfl

/-- The number that a run spells is written as that run. -/
theorem encode_decode_read (b : Buffer n) (start len : Nat) :
    LittleEndian.encode len (LittleEndian.decode (b.read start len)) = b.read start len := by
  have hdecode := LittleEndian.encode_decode (b.read start len)
  rwa [length_read] at hdecode

theorem decode_read_lt (b : Buffer n) (start len : Nat) :
    LittleEndian.decode (b.read start len) < LittleEndian.bound len := by
  have hlt := LittleEndian.decode_lt (b.read start len)
  rwa [length_read] at hlt

/-! ### Fields -/

theorem u32_congr (h : ∀ i, start ≤ i → i < start + 4 → a.byte i = b.byte i) :
    a.u32 start = b.u32 start := by
  rw [u32, u32, read_congr h]

theorem u64_congr (h : ∀ i, start ≤ i → i < start + 8 → a.byte i = b.byte i) :
    a.u64 start = b.u64 start := by
  rw [u64, u64, read_congr h]

theorem setU32_setU32 (b : Buffer n) (start : Nat) (x y : UInt32) :
    (b.setU32 start x).setU32 start y = b.setU32 start y :=
  write_write b start (by rw [LittleEndian.length_encode, LittleEndian.length_encode])

theorem encode_u32 (b : Buffer n) (start : Nat) :
    LittleEndian.encode 4 (b.u32 start).toNat = b.read start 4 := by
  rw [u32, UInt32.toNat_ofNat_of_lt' (decode_read_lt b start 4), encode_decode_read]

theorem encode_u64 (b : Buffer n) (start : Nat) :
    LittleEndian.encode 8 (b.u64 start).toNat = b.read start 8 := by
  rw [u64, UInt64.toNat_ofNat_of_lt' (decode_read_lt b start 8), encode_decode_read]

theorem setByte_byte (b : Buffer n) (i : Nat) : b.setByte i (b.byte i) = b := by
  apply ext_byte
  intro j _
  rw [byte_setByte]
  split
  · next h => rw [h.1]
  · rfl

theorem setU32_u32 (b : Buffer n) (start : Nat) : b.setU32 start (b.u32 start) = b := by
  rw [setU32, encode_u32]
  exact write_read_self b start 4

theorem setU64_u64 (b : Buffer n) (start : Nat) : b.setU64 start (b.u64 start) = b := by
  rw [setU64, encode_u64]
  exact write_read_self b start 8

theorem byte_setU32 (b : Buffer n) {start i : Nat} (x : UInt32)
    (h : ¬ (start ≤ i ∧ i < start + 4)) : (b.setU32 start x).byte i = b.byte i := by
  unfold setU32
  rw [byte_write, LittleEndian.length_encode, if_neg (by omega)]

theorem byte_setU64 (b : Buffer n) {start i : Nat} (x : UInt64)
    (h : ¬ (start ≤ i ∧ i < start + 8)) : (b.setU64 start x).byte i = b.byte i := by
  unfold setU64
  rw [byte_write, LittleEndian.length_encode, if_neg (by omega)]

end Buffer

theorem PageKind.tag_le (k : PageKind) : k.tag ≤ 4 := by
  cases k <;> decide

namespace PageHeader

variable {n : Nat}

theorem byte_store (h : PageHeader) (b : Buffer n) {i : Nat} (hi : width ≤ i) :
    (h.store b).byte i = b.byte i := by
  have hwidth : width = 13 := rfl
  rw [store, Buffer.byte_setU64 _ _ (by omega), Buffer.byte_setU32 _ _ (by omega),
    Buffer.byte_setByte, if_neg (by omega)]

theorem byte_store_zero (h : PageHeader) (b : Buffer n) (hn : width ≤ n) :
    (h.store b).byte 0 = h.kind.tag := by
  have hwidth : width = 13 := rfl
  rw [store, Buffer.byte_setU64 _ _ (by omega), Buffer.byte_setU32 _ _ (by omega),
    Buffer.byte_setByte, if_pos ⟨rfl, by omega⟩]

/-- A stored header is read back. -/
theorem ofBuffer_store (h : PageHeader) (b : Buffer n) (hn : width ≤ n) :
    ofBuffer (h.store b) = h := by
  have hwidth : width = 13 := rfl
  have hchecksum : (h.store b).u32 1 = h.checksum := by
    rw [store, Buffer.u32_congr fun i _ hi => Buffer.byte_setU64 _ _ (by omega)]
    exact Buffer.u32_setU32_self _ _ (by unfold Buffer.spans; omega)
  have hlsn : (h.store b).u64 5 = h.lsn :=
    Buffer.u64_setU64_self _ _ (by unfold Buffer.spans; omega)
  rw [ofBuffer, byte_store_zero h b hn, PageKind.ofTag_tag, hchecksum, hlsn]

/-- Storing the header that a buffer has changes nothing exactly when its tag is that of a kind. -/
theorem store_ofBuffer_iff (b : Buffer n) (hn : width ≤ n) :
    (ofBuffer b).store b = b ↔ b.byte 0 ≤ 4 := by
  constructor
  · intro h
    have htag := byte_store_zero (ofBuffer b) b hn
    rw [h] at htag
    exact htag ▸ PageKind.tag_le _
  · intro h
    have htag : (ofBuffer b).kind.tag = b.byte 0 := PageKind.tag_ofTag h
    have hchecksum : (ofBuffer b).checksum = b.u32 1 := rfl
    have hlsn : (ofBuffer b).lsn = b.u64 5 := rfl
    rw [store, htag, Buffer.setByte_byte, hchecksum, Buffer.setU32_u32, hlsn, Buffer.setU64_u64]

end PageHeader

end PagedIndex
