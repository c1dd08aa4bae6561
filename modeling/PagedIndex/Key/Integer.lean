import PagedIndex.Key.Basic

/-! # Integer keys

Signed and unsigned integers of 32 and 64 bits, stored in two's complement, least significant
byte first.  Their natural order is the numeric one. -/

namespace PagedIndex

open LittleEndian

instance : Key UInt32 where
  width := 4
  encode k := encode 4 k.toNat
  decode bs := UInt32.ofNat (decode bs)
  length_encode _ := length_encode ..
  decode_encode k := by
    have hlt : k.toNat < bound 4 := k.toNat_lt
    rw [decode_encode, Nat.mod_eq_of_lt hlt, UInt32.ofNat_toNat]
  encode_decode bs h := by
    have hlt : decode bs < bound 4 := h ▸ decode_lt bs
    rw [UInt32.toNat_ofNat_of_lt' hlt, ← h, encode_decode]

instance : Key UInt64 where
  width := 8
  encode k := encode 8 k.toNat
  decode bs := UInt64.ofNat (decode bs)
  length_encode _ := length_encode ..
  decode_encode k := by
    have hlt : k.toNat < bound 8 := k.toNat_lt
    rw [decode_encode, Nat.mod_eq_of_lt hlt, UInt64.ofNat_toNat]
  encode_decode bs h := by
    have hlt : decode bs < bound 8 := h ▸ decode_lt bs
    rw [UInt64.toNat_ofNat_of_lt' hlt, ← h, encode_decode]

instance : Key Int32 where
  width := 4
  encode k := Key.encode k.toUInt32
  decode bs := (Key.decode bs : UInt32).toInt32
  length_encode k := Key.length_encode k.toUInt32
  decode_encode k := by rw [Key.decode_encode, Int32.toInt32_toUInt32]
  encode_decode bs h := by rw [UInt32.toUInt32_toInt32, Key.encode_decode bs h]

instance : Key Int64 where
  width := 8
  encode k := Key.encode k.toUInt64
  decode bs := (Key.decode bs : UInt64).toInt64
  length_encode k := Key.length_encode k.toUInt64
  decode_encode k := by rw [Key.decode_encode, Int64.toInt64_toUInt64]
  encode_decode bs h := by rw [UInt64.toUInt64_toInt64, Key.encode_decode bs h]

/-- Decimal text of an integer. -/
def decimal (i : Int) : String :=
  match i with
  | .ofNat n => String.ofList (Nat.toDigits 10 n)
  | .negSucc n => "-" ++ String.ofList (Nat.toDigits 10 (n + 1))

instance : KeyText UInt32 := ⟨fun k => decimal k.toNat, fun k => decimal k.toNat⟩

instance : KeyText UInt64 := ⟨fun k => decimal k.toNat, fun k => decimal k.toNat⟩

instance : KeyText Int32 := ⟨fun k => decimal k.toInt, fun k => decimal k.toInt⟩

instance : KeyText Int64 := ⟨fun k => decimal k.toInt, fun k => decimal k.toInt⟩

end PagedIndex
