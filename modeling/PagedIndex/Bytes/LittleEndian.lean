/-! # Little-endian numbers

Fixed-width natural numbers as bytes, least significant byte first.  Every integer field of a
page is written by `encode` and read by `decode`.  `decode_encode` and `encode_decode` say that
the two are inverse up to the width. -/

namespace PagedIndex.LittleEndian

/-- The `width` low bytes of `v`. -/
def encode : Nat → Nat → List UInt8
  | 0, _ => []
  | width + 1, v => UInt8.ofNat v :: encode width (v / 256)

/-- The number with the given bytes. -/
def decode : List UInt8 → Nat
  | [] => 0
  | b :: bs => b.toNat + 256 * decode bs

/-- Numbers of `width` bytes are below this. -/
def bound : Nat → Nat
  | 0 => 1
  | width + 1 => 256 * bound width

@[simp] theorem length_encode (width v : Nat) : (encode width v).length = width := by
  induction width generalizing v with
  | zero => rfl
  | succ width ih => simp [encode, ih]

theorem decode_encode (width v : Nat) : decode (encode width v) = v % bound width := by
  induction width generalizing v with
  | zero => simp [encode, decode, bound, Nat.mod_one]
  | succ width ih =>
    have hlow : (UInt8.ofNat v).toNat = v % 256 := UInt8.toNat_ofNat'
    rw [encode, decode, ih, hlow, bound, Nat.mod_mul]

theorem decode_lt (bs : List UInt8) : decode bs < bound bs.length := by
  induction bs with
  | nil => exact Nat.zero_lt_one
  | cons b bs ih =>
    have hb : b.toNat < 256 := b.toNat_lt
    rw [decode, List.length_cons, bound]
    omega

theorem encode_decode (bs : List UInt8) : encode bs.length (decode bs) = bs := by
  induction bs with
  | nil => rfl
  | cons b bs ih =>
    have hb : b.toNat < 256 := b.toNat_lt
    have hlow : UInt8.ofNat (b.toNat + 256 * decode bs) = b := by
      rw [← UInt8.toNat_inj, UInt8.toNat_ofNat', Nat.add_mul_mod_self_left, Nat.mod_eq_of_lt hb]
    have hrest : (b.toNat + 256 * decode bs) / 256 = decode bs := by omega
    rw [List.length_cons, decode, encode, hlow, hrest, ih]

end PagedIndex.LittleEndian
