import Mathlib.Algebra.Group.Int.Defs
import PagedIndex.Proofs.Key.Codec
import PagedIndex.Proofs.Key.Padding

/-! # Integers as keys

The key of an integer begins with its eight bytes, most significant byte first and with the sign
bit flipped.  Strings of one length are ordered like the numbers they spell that way
(`compare_decode_reverse`), and flipping the sign bit adds `2 ^ 63` to every integer, so that the
negative ones come first (`toNat_flipSign`).  Hence keys are in the order of their integers
whatever the width, and a key is that of an integer exactly when it is zero behind the first eight
bytes (`ofInteger_ordered`). -/

namespace PagedIndex

/-! ### Numbers spelt from the front -/

namespace LittleEndian

theorem decode_append (a b : List UInt8) :
    decode (a ++ b) = decode a + bound a.length * decode b := by
  induction a with
  | nil => simp [decode, bound]
  | cons x xs ih =>
      rw [List.cons_append, decode, ih, decode, List.length_cons, bound, Nat.mul_add, Nat.mul_assoc,
        Nat.add_assoc]

theorem compare_digits {base r s : Nat} (hr : r < base) (hs : s < base) (x y : Nat) :
    compare (r + base * x) (s + base * y) = (compare x y).then (compare r s) := by
  rcases Nat.lt_trichotomy x y with hxy | rfl | hxy
  · have hmul : base * x + base ≤ base * y := Nat.mul_le_mul_left base hxy
    rw [Nat.compare_eq_lt.mpr hxy, Nat.compare_eq_lt.mpr (by omega)]
    rfl
  · rw [Nat.compare_eq_eq.mpr rfl]
    rcases Nat.lt_trichotomy r s with hrs | rfl | hrs
    · rw [Nat.compare_eq_lt.mpr hrs, Nat.compare_eq_lt.mpr (by omega)]
      rfl
    · rw [Nat.compare_eq_eq.mpr rfl, Nat.compare_eq_eq.mpr rfl]
      rfl
    · rw [Nat.compare_eq_gt.mpr hrs, Nat.compare_eq_gt.mpr (by omega)]
      rfl
  · have hmul : base * y + base ≤ base * x := Nat.mul_le_mul_left base hxy
    rw [Nat.compare_eq_gt.mpr hxy, Nat.compare_eq_gt.mpr (by omega)]
    rfl

/-- Strings of one length are ordered like the numbers that they spell, most significant byte
first. -/
theorem compare_decode_reverse {a b : List UInt8} (h : a.length = b.length) :
    compare (decode a.reverse) (decode b.reverse) = compare a b := by
  induction a generalizing b with
  | nil =>
      obtain rfl : b = [] := List.length_eq_zero_iff.mp h.symm
      rfl
  | cons x xs ih =>
      cases b with
      | nil => cases h
      | cons y ys =>
          have hlen : xs.length = ys.length := Nat.succ.inj h
          have hx := decode_lt xs.reverse
          have hy := decode_lt ys.reverse
          rw [List.length_reverse] at hx hy
          have hlast : ∀ z : UInt8, decode [z] = z.toNat := fun _ => rfl
          have hbyte : compare x y = compare x.toNat y.toNat := by
            simp only [compare, compareOfLessAndEq, UInt8.lt_iff_toNat_lt, UInt8.toNat_inj]
          rw [List.reverse_cons, List.reverse_cons, decode_append, decode_append, hlast, hlast,
            List.length_reverse, List.length_reverse, ← hlen,
            compare_digits hx (hlen ▸ hy), ih hlen, compare_cons_cons, hbyte]

end LittleEndian

namespace ByteKey

open LittleEndian

variable {n : Nat}

/-! ### The sign bit -/

theorem flipSign_flipSign (w : UInt64) : flipSign (flipSign w) = w := by
  rw [flipSign, flipSign, UInt64.xor_assoc, UInt64.xor_self, UInt64.xor_zero]

/-- With its sign bit flipped an integer stands as far above zero as it stands above the least
integer. -/
theorem toNat_flipSign (i : Int64) : ((flipSign i.toUInt64).toNat : Int) = i.toInt + 2 ^ 63 := by
  have hlt := i.toUInt64.toNat_lt
  have hint : i.toInt = if 2 * i.toUInt64.toNat < 2 ^ 64 then (i.toUInt64.toNat : Int)
      else (i.toUInt64.toNat : Int) - (2 ^ 64 : Nat) := by
    rw [← Int64.toInt_toBitVec, BitVec.toInt_eq_toNat_cond]
    rfl
  have hflip : (flipSign i.toUInt64).toNat = i.toUInt64.toNat ^^^ 2 ^ 63 := UInt64.toNat_xor _ _
  -- The top bit of the word and the 63 bits below it, each on its own.
  have htop : (i.toUInt64.toNat ^^^ 2 ^ 63) / 2 ^ 63 = i.toUInt64.toNat / 2 ^ 63 ^^^ 1 :=
    Nat.xor_div_two_pow
  have hlow : (i.toUInt64.toNat ^^^ 2 ^ 63) % 2 ^ 63 = i.toUInt64.toNat % 2 ^ 63 := by
    rw [Nat.xor_mod_two_pow, Nat.mod_self, Nat.xor_zero]
  rw [hint, hflip]
  obtain hbit | hbit : i.toUInt64.toNat / 2 ^ 63 = 0 ∨ i.toUInt64.toNat / 2 ^ 63 = 1 := by omega
  · have hone : 0 ^^^ 1 = 1 := rfl
    rw [hbit, hone] at htop
    rw [if_pos (by omega)]
    omega
  · have hzero : 1 ^^^ 1 = 0 := rfl
    rw [hbit, hzero] at htop
    rw [if_neg (by omega)]
    omega

/-! ### The bytes of an integer -/

theorem length_integerBytes (i : Int64) : (integerBytes i).length = 8 := by
  rw [integerBytes, List.length_reverse, length_encode]

theorem decode_integerBytes (i : Int64) :
    decode (integerBytes i).reverse = (flipSign i.toUInt64).toNat := by
  rw [integerBytes, List.reverse_reverse, decode_encode]
  exact Nat.mod_eq_of_lt (UInt64.toNat_lt _)

theorem compare_integerBytes (i j : Int64) :
    compare (integerBytes i) (integerBytes j) = compare i.toInt j.toInt := by
  have hlen : (integerBytes i).length = (integerBytes j).length := by
    rw [length_integerBytes, length_integerBytes]
  have hi := toNat_flipSign i
  have hj := toNat_flipSign j
  rw [← compare_decode_reverse hlen, decode_integerBytes, decode_integerBytes]
  rcases Int.lt_trichotomy i.toInt j.toInt with h | h | h
  · rw [Int.compare_eq_lt.mpr h, Nat.compare_eq_lt]
    omega
  · rw [Int.compare_eq_eq.mpr h, Nat.compare_eq_eq]
    omega
  · rw [Int.compare_eq_gt.mpr h, Nat.compare_eq_gt]
    omega

/-- The integer whose bytes these are. -/
def bytesInteger (bs : List UInt8) : Int64 := (flipSign (UInt64.ofNat (decode bs.reverse))).toInt64

theorem bytesInteger_integerBytes (i : Int64) : bytesInteger (integerBytes i) = i := by
  rw [bytesInteger, decode_integerBytes, UInt64.ofNat_toNat, flipSign_flipSign,
    Int64.toInt64_toUInt64]

theorem integerBytes_bytesInteger {bs : List UInt8} (h : bs.length = 8) :
    integerBytes (bytesInteger bs) = bs := by
  have hlen : bs.reverse.length = 8 := by rw [List.length_reverse, h]
  have hlt : decode bs.reverse < bound 8 := hlen ▸ decode_lt bs.reverse
  rw [integerBytes, bytesInteger, UInt64.toUInt64_toInt64, flipSign_flipSign,
    UInt64.toNat_ofNat_of_lt' hlt, ← hlen, encode_decode, List.reverse_reverse]

/-! ### Keys of integers -/

theorem fit_of_length_le {bs : List UInt8} (h : bs.length ≤ n) :
    fit n bs = bs ++ List.replicate (n - bs.length) 0 := by
  rw [fit, List.take_of_length_le h]

theorem compare_fit_of_length {a b : List UInt8} (hlen : a.length = b.length) (h : a.length ≤ n) :
    compare (fit n a) (fit n b) = compare a b := by
  induction a generalizing b n with
  | nil =>
      obtain rfl : b = [] := List.length_eq_zero_iff.mp hlen.symm
      rw [Std.compare_self, Std.compare_self]
  | cons x xs ih =>
      obtain ⟨n, rfl⟩ : ∃ m, n = m + 1 := Nat.exists_eq_succ_of_ne_zero (by
        rw [List.length_cons] at h
        omega)
      cases b with
      | nil => cases hlen
      | cons y ys =>
          rw [fit_succ_cons, fit_succ_cons, compare_cons_cons, compare_cons_cons,
            ih (Nat.succ.inj hlen) (Nat.le_of_succ_le_succ h)]

theorem ofInteger_eq (hn : 8 ≤ n) (i : Int64) : ofInteger n i = .ok (ofBytes n (integerBytes i)) :=
  if_pos hn

theorem toInteger_eq (hn : 8 ≤ n) (k : ByteKey n) :
    k.toInteger = .ok (bytesInteger (k.bytes.take 8)) := if_pos hn

/-- The first eight bytes of the key of an integer are the bytes of the integer. -/
theorem take_ofBytes_integerBytes (hn : 8 ≤ n) (i : Int64) :
    (ofBytes n (integerBytes i)).bytes.take 8 = integerBytes i := by
  show (fit n (integerBytes i)).take 8 = integerBytes i
  have hlen := length_integerBytes i
  rw [fit_of_length_le (by omega), List.take_left' hlen]

theorem ofBytes_take_eq_iff (hn : 8 ≤ n) (k : ByteKey n) :
    ofBytes n (k.bytes.take 8) = k ↔ ∀ b ∈ k.bytes.drop 8, b = 0 := by
  have hlen := k.length_bytes
  have htake : (k.bytes.take 8).length = 8 := by rw [List.length_take]; omega
  have hfit : fit n (k.bytes.take 8) = k.bytes.take 8 ++ List.replicate (n - 8) 0 := by
    rw [fit_of_length_le (by omega), htake]
  have hsplit : ofBytes n (k.bytes.take 8) = k ↔
      k.bytes.take 8 ++ List.replicate (n - 8) 0 = k.bytes.take 8 ++ k.bytes.drop 8 := by
    rw [← hfit, List.take_append_drop]
    exact ByteKey.ext_iff
  rw [hsplit, List.append_cancel_left_eq, eq_comm, List.eq_replicate_iff, List.length_drop]
  exact and_iff_right (by omega)

theorem ofBytes?_overwrite? (k : ByteKey n) {slot : List UInt8} (h : n ≤ slot.length) :
    ∃ stored, Key.overwrite? k slot = .ok stored ∧ Key.ofBytes? stored = .ok k := by
  obtain ⟨stored, hstore, hload, -⟩ := (Key.codec_lossless (ByteKey n)).load_store k slot h
  exact ⟨stored, hstore, hload⟩

/-- In a key of eight bytes or more every integer has its key; keys are ordered like their integers
and give them back, and a key that has been stored is the same key when it is read again.  A key is
made from the integer that it gives exactly when its bytes from the ninth on are zero. -/
theorem ofInteger_ordered (hn : 8 ≤ n) :
    (∀ i j : Int64, ∃ k l : ByteKey n, ofInteger n i = .ok k ∧ ofInteger n j = .ok l ∧
      Key.natural k l = compare i.toInt j.toInt ∧ k.toInteger = .ok i ∧
      ∀ slot : List UInt8, n ≤ slot.length →
        ∃ stored, Key.overwrite? k slot = .ok stored ∧ Key.ofBytes? stored = .ok k) ∧
    ∀ k : ByteKey n, (k.toInteger >>= ofInteger n) = .ok k ↔ ∀ b ∈ k.bytes.drop 8, b = 0 := by
  refine ⟨fun i j => ⟨_, _, ofInteger_eq hn i, ofInteger_eq hn j, ?_, ?_,
    fun _ => ofBytes?_overwrite? _⟩, fun k => ?_⟩
  · have hi := length_integerBytes i
    have hj := length_integerBytes j
    rw [natural_ofBytes, compare_fit_of_length (by omega) (by omega), compare_integerBytes]
  · rw [toInteger_eq hn, take_ofBytes_integerBytes hn, bytesInteger_integerBytes]
  · have hlen : (k.bytes.take 8).length = 8 := by
      rw [List.length_take, k.length_bytes]
      omega
    have hmade : (k.toInteger >>= ofInteger n) = .ok (ofBytes n (k.bytes.take 8)) := by
      rw [toInteger_eq hn]
      refine (ofInteger_eq hn _).trans ?_
      rw [integerBytes_bytesInteger hlen]
    rw [hmade, Except.ok.injEq, ofBytes_take_eq_iff hn]

/-- A negative and a positive integer in ten bytes, the first one stored in a run of twelve. -/
theorem ofInteger_ordered_ten :
    ∃ k l : ByteKey 10, ofInteger 10 (-5) = .ok k ∧ ofInteger 10 3 = .ok l ∧
      Key.natural k l = .lt ∧ k.toInteger = .ok (-5) ∧
      ∃ stored, Key.overwrite? k (List.replicate 12 0xFF) = .ok stored ∧
        Key.ofBytes? stored = .ok k := by
  obtain ⟨hkeys, -⟩ := ofInteger_ordered (n := 10) (by decide)
  obtain ⟨k, l, hk, hl, horder, hback, hslot⟩ := hkeys (-5) 3
  exact ⟨k, l, hk, hl, horder, hback, hslot _ (by decide)⟩

end ByteKey

end PagedIndex
