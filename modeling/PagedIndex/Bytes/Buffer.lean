import PagedIndex.Bytes.LittleEndian

/-! # Byte buffers

`Buffer n` is a block of `n` bytes.  Reading past the end gives zeros and writing past the end
does nothing, so every access is total; operations that must refuse such an access say so by
`Buffer.spans` before they make it.  `byte_write` states what a write does byte by byte, and
everything else about buffers follows from it. -/

namespace PagedIndex

/-- A block of `n` bytes. -/
@[ext]
structure Buffer (n : Nat) where
  bytes : Vector UInt8 n
deriving DecidableEq

namespace Buffer

variable {n : Nat}

/-- Every byte equal to `x`. -/
def filled (n : Nat) (x : UInt8) : Buffer n := ⟨Vector.replicate n x⟩

/-- The buffer holding the bytes of a list. -/
def ofList (bs : List UInt8) : Buffer bs.length := ⟨⟨bs.toArray, by simp⟩⟩

def toList (b : Buffer n) : List UInt8 := b.bytes.toList

/-- Byte `i`, zero past the end. -/
def byte (b : Buffer n) (i : Nat) : UInt8 := if h : i < n then b.bytes[i] else 0

/-- Store one byte; nothing happens past the end. -/
def setByte (b : Buffer n) (i : Nat) (x : UInt8) : Buffer n := ⟨b.bytes.setIfInBounds i x⟩

/-- The `len` bytes from `start` on. -/
def read (b : Buffer n) (start : Nat) : Nat → List UInt8
  | 0 => []
  | len + 1 => b.byte start :: b.read (start + 1) len

/-- Store a run of bytes from `start` on. -/
def write (b : Buffer n) (start : Nat) : List UInt8 → Buffer n
  | [] => b
  | x :: xs => (b.setByte start x).write (start + 1) xs

/-- `len` bytes from `start` on lie inside a buffer of `n` bytes. -/
def spans (n start len : Nat) : Prop := start + len ≤ n

instance (start len : Nat) : Decidable (spans n start len) :=
  inferInstanceAs (Decidable (start + len ≤ n))

/-- The 32-bit field at `start`. -/
def u32 (b : Buffer n) (start : Nat) : UInt32 :=
  UInt32.ofNat (LittleEndian.decode (b.read start 4))

def setU32 (b : Buffer n) (start : Nat) (x : UInt32) : Buffer n :=
  b.write start (LittleEndian.encode 4 x.toNat)

/-- The 64-bit field at `start`. -/
def u64 (b : Buffer n) (start : Nat) : UInt64 :=
  UInt64.ofNat (LittleEndian.decode (b.read start 8))

def setU64 (b : Buffer n) (start : Nat) (x : UInt64) : Buffer n :=
  b.write start (LittleEndian.encode 8 x.toNat)

/-! ### Byte by byte -/

theorem byte_of_le {b : Buffer n} {i : Nat} (h : n ≤ i) : b.byte i = 0 := by
  simp [byte, Nat.not_lt.mpr h]

theorem ext_byte {a b : Buffer n} (h : ∀ i, i < n → a.byte i = b.byte i) : a = b := by
  obtain ⟨a⟩ := a
  obtain ⟨b⟩ := b
  refine congrArg Buffer.mk (Vector.ext fun i hi => ?_)
  have hbyte := h i hi
  rwa [byte, byte, dif_pos hi, dif_pos hi] at hbyte

theorem byte_filled (x : UInt8) (i : Nat) : (filled n x).byte i = if i < n then x else 0 := by
  by_cases h : i < n <;> simp [filled, byte, h]

theorem byte_setByte (b : Buffer n) (i : Nat) (x : UInt8) (j : Nat) :
    (b.setByte i x).byte j = if i = j ∧ j < n then x else b.byte j := by
  by_cases hj : j < n <;> by_cases hij : i = j <;>
    simp [setByte, byte, hj, hij]

theorem byte_write (b : Buffer n) (start : Nat) (bs : List UInt8) (j : Nat) :
    (b.write start bs).byte j =
      if start ≤ j ∧ j < start + bs.length ∧ j < n then bs.getD (j - start) 0 else b.byte j := by
  induction bs generalizing b start with
  | nil => simp [write]; omega
  | cons x xs ih =>
    rw [write, ih, byte_setByte]
    by_cases hin : start ≤ j ∧ j < start + (x :: xs).length ∧ j < n
    · rw [if_pos hin]
      obtain ⟨hs, hl, hn⟩ := hin
      rw [List.length_cons] at hl
      by_cases he : start = j
      · subst he
        rw [if_neg (by omega), if_pos ⟨rfl, hn⟩]
        simp
      · rw [if_pos (by omega)]
        have hi : j - start = (j - (start + 1)) + 1 := by omega
        rw [hi, List.getD_cons_succ]
    · rw [if_neg hin]
      rw [List.length_cons] at hin
      rw [if_neg (by omega), if_neg (by omega)]

theorem byte_write_of_lt (b : Buffer n) {start : Nat} (bs : List UInt8) {j : Nat}
    (h : j < start) : (b.write start bs).byte j = b.byte j := by
  rw [byte_write, if_neg (by omega)]

theorem byte_write_of_ge (b : Buffer n) {start : Nat} (bs : List UInt8) {j : Nat}
    (h : start + bs.length ≤ j) : (b.write start bs).byte j = b.byte j := by
  rw [byte_write, if_neg (by omega)]

@[simp] theorem length_read (b : Buffer n) (start len : Nat) : (b.read start len).length = len := by
  induction len generalizing start with
  | zero => rfl
  | succ len ih => simp [read, ih]

theorem getElem_read (b : Buffer n) (start len i : Nat) (h : i < (b.read start len).length) :
    (b.read start len)[i] = b.byte (start + i) := by
  induction len generalizing start i with
  | zero => simp [read] at h
  | succ len ih =>
    cases i with
    | zero => simp [read]
    | succ i =>
      simp only [read, List.getElem_cons_succ, ih]
      congr 1
      omega

/-- A run reads back as the bytes stored there. -/
theorem read_write_self (b : Buffer n) (start : Nat) (bs : List UInt8)
    (h : spans n start bs.length) : (b.write start bs).read start bs.length = bs := by
  apply List.ext_getElem (by simp)
  intro i h₁ h₂
  have : start + i < n := by unfold spans at h; omega
  rw [getElem_read, byte_write, if_pos (by omega), Nat.add_sub_cancel_left]
  simp [h₂]

/-- A run reads as before when the bytes stored lie wholly on one side of it. -/
theorem read_write_of_disjoint (b : Buffer n) (start : Nat) (bs : List UInt8) (i len : Nat)
    (h : i + len ≤ start ∨ start + bs.length ≤ i) :
    (b.write start bs).read i len = b.read i len := by
  apply List.ext_getElem (by simp)
  intro k h₁ h₂
  rw [length_read] at h₁
  rw [getElem_read, getElem_read, byte_write, if_neg (by omega)]

/-- Storing the bytes already there changes nothing. -/
theorem write_read_self (b : Buffer n) (start len : Nat) :
    b.write start (b.read start len) = b := by
  apply ext_byte
  intro j _
  rw [byte_write]
  split
  · next h =>
    rw [length_read] at h
    have hj : start + (j - start) = j := by omega
    simp [getElem_read, hj, show j - start < len by omega]
  · rfl

/-! ### Fields -/

theorem u32_setU32_self (b : Buffer n) {start : Nat} (x : UInt32) (h : spans n start 4) :
    (b.setU32 start x).u32 start = x := by
  have hread := read_write_self b start (LittleEndian.encode 4 x.toNat) (by simpa using h)
  rw [LittleEndian.length_encode] at hread
  have hlt : x.toNat < LittleEndian.bound 4 := x.toNat_lt
  rw [u32, setU32, hread, LittleEndian.decode_encode, Nat.mod_eq_of_lt hlt, UInt32.ofNat_toNat]

theorem u64_setU64_self (b : Buffer n) {start : Nat} (x : UInt64) (h : spans n start 8) :
    (b.setU64 start x).u64 start = x := by
  have hread := read_write_self b start (LittleEndian.encode 8 x.toNat) (by simpa using h)
  rw [LittleEndian.length_encode] at hread
  have hlt : x.toNat < LittleEndian.bound 8 := x.toNat_lt
  rw [u64, setU64, hread, LittleEndian.decode_encode, Nat.mod_eq_of_lt hlt, UInt64.ofNat_toNat]

theorem u32_write_of_disjoint (b : Buffer n) {start i : Nat} (bs : List UInt8)
    (h : i + 4 ≤ start ∨ start + bs.length ≤ i) : (b.write start bs).u32 i = b.u32 i := by
  rw [u32, u32, read_write_of_disjoint b start bs i 4 h]

end Buffer

end PagedIndex
