import PagedIndex.Bytes.Hex
import PagedIndex.Key.Basic

/-! # Byte-string keys

A `ByteKey n` is a string of exactly `n` bytes, ordered byte by byte.  Shorter strings are padded
with zeros and longer ones cut.  A 64-bit integer is stored most significant byte first with its
sign bit flipped, so that the order of the bytes is the order of the integers. -/

namespace PagedIndex

/-- A key of `n` bytes. -/
@[ext]
structure ByteKey (n : Nat) where
  bytes : List UInt8
  length_bytes : bytes.length = n
deriving DecidableEq

namespace ByteKey

variable {n : Nat}

/-- Cut or pad a run of bytes to the width `n`. -/
def fit (n : Nat) (bs : List UInt8) : List UInt8 :=
  bs.take n ++ List.replicate (n - bs.length) 0

theorem length_fit (n : Nat) (bs : List UInt8) : (fit n bs).length = n := by
  simp [fit]
  omega

theorem fit_of_length {bs : List UInt8} (h : bs.length = n) : fit n bs = bs := by
  simp [fit, ← h]

/-- The key made of the first `n` bytes of a string, zeros standing for missing ones. -/
def ofBytes (n : Nat) (bs : List UInt8) : ByteKey n := ⟨fit n bs, length_fit n bs⟩

/-- The key of zeros. -/
def zero (n : Nat) : ByteKey n := ofBytes n []

theorem ofBytes_bytes (k : ByteKey n) : ofBytes n k.bytes = k := by
  ext1
  exact fit_of_length k.length_bytes

instance : Key (ByteKey n) where
  width := n
  encode := bytes
  decode := ofBytes n
  length_encode := length_bytes
  decode_encode := ofBytes_bytes
  encode_decode _ h := fit_of_length h

/-- Keys are ordered by their first differing byte. -/
instance : Ord (ByteKey n) := ⟨fun a b => compare a.bytes b.bytes⟩

/-! ### Integers -/

/-- Flip the sign bit of a word. -/
def flipSign (w : UInt64) : UInt64 := w ^^^ 0x8000000000000000

/-- The eight bytes of an integer, most significant first, sign bit flipped. -/
def integerBytes (i : Int64) : List UInt8 :=
  (LittleEndian.encode 8 (flipSign i.toUInt64).toNat).reverse

/-- The key that holds an integer; it takes at least eight bytes. -/
def ofInteger (n : Nat) (i : Int64) : Except Fault (ByteKey n) :=
  if 8 ≤ n then .ok (ofBytes n (integerBytes i)) else .error (.keyTooNarrow n)

/-- The integer held by the first eight bytes of a key. -/
def toInteger (k : ByteKey n) : Except Fault Int64 :=
  if 8 ≤ n then
    .ok (flipSign (UInt64.ofNat (LittleEndian.decode (k.bytes.take 8).reverse))).toInt64
  else .error (.keyTooNarrow n)

/-! ### Text -/

/-- A byte that stands for itself in text: a printing character of ASCII or a blank. -/
def isPrintable (b : UInt8) : Bool := 0x20 ≤ b && b ≤ 0x7e

/-- The bytes up to the last one that is not zero. -/
def unpadded (k : ByteKey n) : List UInt8 := (k.bytes.reverse.dropWhile (· = 0)).reverse

/-- Characters if all bytes before the padding are printable, else every byte in hexadecimal. -/
def text (k : ByteKey n) : String :=
  if k.unpadded.all isPrintable then
    String.ofList (k.unpadded.map fun b => Char.ofNat b.toNat)
  else "0x" ++ Hex.encode k.bytes

instance : KeyText (ByteKey n) := ⟨text, fun k => s!"GenericKey<{n}>({k.text})"⟩

end ByteKey

end PagedIndex
