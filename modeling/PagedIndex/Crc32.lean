/-! # CRC-32

The reflected cyclic redundancy check with polynomial `0xEDB88320`, initial value and final mask
`0xFFFFFFFF`.  The register is defined bit by bit, so that its linearity is a fact about one
`shift`. -/

namespace PagedIndex.Crc32

def polynomial : UInt32 := 0xEDB88320

/-- Clock one bit out of the register. -/
def shift (c : UInt32) : UInt32 :=
  if c &&& 1 = 1 then (c >>> 1) ^^^ polynomial else c >>> 1

/-- Clock `k` bits out of the register. -/
def shiftBy : Nat → UInt32 → UInt32
  | 0, c => c
  | k + 1, c => shiftBy k (shift c)

/-- Feed one byte. -/
def feed (c : UInt32) (b : UInt8) : UInt32 := shiftBy 8 (c ^^^ b.toUInt32)

/-- Feed a run of bytes. -/
def run (c : UInt32) (bs : List UInt8) : UInt32 := bs.foldl feed c

/-- The checksum of a run of bytes. -/
def ofList (bs : List UInt8) : UInt32 := run 0xFFFFFFFF bs ^^^ 0xFFFFFFFF

theorem run_append (c : UInt32) (xs ys : List UInt8) : run c (xs ++ ys) = run (run c xs) ys :=
  List.foldl_append

end PagedIndex.Crc32
