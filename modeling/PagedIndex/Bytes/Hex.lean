/-! # Hexadecimal text

Two lowercase digits per byte. -/

namespace PagedIndex.Hex

def digit (v : UInt8) : Char :=
  if v < 10 then Char.ofNat ('0'.toNat + v.toNat) else Char.ofNat ('a'.toNat + v.toNat - 10)

/-- The digits of a run of bytes, high digit first. -/
def digits : List UInt8 → List Char
  | [] => []
  | b :: bs => digit (b / 16) :: digit (b % 16) :: digits bs

def encode (bs : List UInt8) : String := String.ofList (digits bs)

end PagedIndex.Hex
