import PagedIndex.Page.Basic

/-! # Database files

A file is a length and the bytes below it, kept in blocks of one page.  Bytes at or past the
length are zero, so a file that is extended grows by zeros, and two files are equal as soon as
they have the same length and the same blocks. -/

namespace PagedIndex

/-- A file of `length` bytes. -/
@[ext]
structure File where
  length : Nat
  block : Nat → Page
  zero_past : ∀ i, length ≤ i → (block (i / pageSize)).byte (i % pageSize) = 0

namespace File

/-- The blocks with block `k` replaced. -/
def replaceBlock (block : Nat → Page) (k : Nat) (p : Page) : Nat → Page :=
  fun j => if j = k then p else block j

def empty : File where
  length := 0
  block := fun _ => Page.zero
  zero_past _ _ := Page.byte_zero _

/-- Byte `i`, zero past the end. -/
def byte (f : File) (i : Nat) : UInt8 := (f.block (i / pageSize)).byte (i % pageSize)

/-- The `len` bytes from `start` on, as far as the file reaches. -/
def read (f : File) (start len : Nat) : List UInt8 :=
  (List.range (min len (f.length - start))).map fun i => f.byte (start + i)

/-- Block `k`, if the file holds all of it. -/
def readPage? (f : File) (k : Nat) : Option Page :=
  if (k + 1) * pageSize ≤ f.length then some (f.block k) else none

/-- Replace block `k`; the file grows to hold it. -/
def writePage (f : File) (k : Nat) (p : Page) : File where
  length := max f.length ((k + 1) * pageSize)
  block := replaceBlock f.block k p
  zero_past i h := by
    have hk : i / pageSize ≠ k := by
      have : (k + 1) * pageSize ≤ i := by omega
      have := (Nat.le_div_iff_mul_le (by decide : 0 < pageSize)).mpr this
      omega
    rw [replaceBlock, if_neg hk]
    exact f.zero_past i (by omega)

/-- Store bytes in block `k` from its byte `r` on; the file grows to hold them. -/
def patch (f : File) (k r : Nat) (bs : List UInt8) : File where
  length := max f.length (k * pageSize + r + bs.length)
  block := replaceBlock f.block k ((f.block k).write r bs)
  zero_past i h := by
    rw [replaceBlock]
    split
    · next hk =>
      have hi := Nat.div_add_mod i pageSize
      rw [hk, Nat.mul_comm] at hi
      rw [Buffer.byte_write_of_ge _ _ (by omega), ← hk]
      exact f.zero_past i (by omega)
    · exact f.zero_past i (by omega)

/-- Store only the first `count` bytes of block `k`; the file grows to hold them. -/
def writePart (f : File) (k : Nat) (p : Page) (count : Nat) : File :=
  if count = 0 then f else f.patch k 0 (p.toList.take count)

/-- Store bytes from `start` on, block by block; a gap before them is filled with zeros. -/
def write (f : File) (start : Nat) (bs : List UInt8) : File :=
  if h : bs = [] then f
  else
    let room := pageSize - start % pageSize
    have : 0 < room := Nat.sub_pos_of_lt (Nat.mod_lt _ (by decide))
    have : 0 < bs.length := List.length_pos_iff.mpr h
    (f.patch (start / pageSize) (start % pageSize) (bs.take room)).write (start + room)
      (bs.drop room)
termination_by bs.length

/-- A block whose bytes from `r` on are zero. -/
def clearFrom (p : Page) (r : Nat) : Page := p.write r (List.replicate (pageSize - r) 0)

theorem byte_clearFrom (p : Page) (r i : Nat) :
    (clearFrom p r).byte i = if r ≤ i then 0 else p.byte i := by
  rw [clearFrom, Buffer.byte_write, List.length_replicate]
  by_cases hi : i < pageSize
  · by_cases hr : r ≤ i
    · rw [if_pos ⟨hr, by omega, hi⟩, if_pos hr, List.getD_eq_getElem?_getD, List.getElem?_replicate]
      split <;> rfl
    · rw [if_neg (by omega), if_neg hr]
  · rw [if_neg (by omega), Buffer.byte_of_le (by omega), ite_self]

/-- Cut the file, or extend it with zeros. -/
def setLength (f : File) (length : Nat) : File :=
  if h : f.length ≤ length then { f with length, zero_past := fun i hi => f.zero_past i (by omega) }
  else
    let last := clearFrom (f.block (length / pageSize)) (length % pageSize)
    { length
      block := fun j =>
        if j < length / pageSize then f.block j
        else if j = length / pageSize then last
        else Page.zero
      zero_past := fun i hi => by
        have hle := Nat.div_le_div_right (c := pageSize) hi
        rw [if_neg (by omega)]
        split
        · next hj =>
          have h₁ := Nat.div_add_mod i pageSize
          have h₂ := Nat.div_add_mod length pageSize
          rw [hj] at h₁
          exact (byte_clearFrom ..).trans (if_pos (by omega))
        · exact Page.byte_zero _ }

end File

end PagedIndex
