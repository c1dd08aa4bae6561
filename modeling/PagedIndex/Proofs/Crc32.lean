import Mathlib.Algebra.Group.Nat.Defs
import PagedIndex.Bytes.LittleEndian
import PagedIndex.Crc32

/-! # Bursts

The register of the checksum is linear in what it holds, and no bit is lost on the way: one `shift`
takes only zero to zero, because the polynomial has its top bit set.  So runs over the same bytes
keep different registers apart, and `run_eq_shiftBy` tells that up to four bytes enter the register
as one number.  Together: two messages that differ, but only within four bytes in a row, never have
the same checksum (`ofList_ne_of_burst`). -/

namespace PagedIndex

namespace LittleEndian

theorem bound_eq (width : Nat) : bound width = 2 ^ (8 * width) := by
  induction width with
  | zero => rfl
  | succ width ih => rw [bound, ih, Nat.mul_succ, Nat.pow_add, Nat.mul_comm]

theorem decode_injective {xs ys : List UInt8} (hlen : xs.length = ys.length)
    (h : decode xs = decode ys) : xs = ys := by
  rw [← encode_decode xs, ← encode_decode ys, h, hlen]

end LittleEndian

namespace Crc32

/-! ### One shift -/

/-- What comes back into the register when a bit is clocked out. -/
def feedback (c : UInt32) : UInt32 := if c.toNat % 2 = 1 then polynomial else 0

theorem shift_eq (c : UInt32) : shift c = c >>> 1 ^^^ feedback c := by
  have hlow : c &&& 1 = 1 ↔ c.toNat % 2 = 1 := by
    rw [← UInt32.toNat_inj, UInt32.toNat_and, UInt32.toNat_one, Nat.and_one_is_mod]
  unfold shift feedback
  simp only [hlow]
  split
  · rfl
  · rw [UInt32.xor_zero]

theorem feedback_xor (a b : UInt32) : feedback (a ^^^ b) = feedback a ^^^ feedback b := by
  have hlow : (a ^^^ b).toNat % 2 = a.toNat % 2 ^^^ b.toNat % 2 := by
    rw [UInt32.toNat_xor]
    exact Nat.xor_mod_two_pow (n := 1)
  unfold feedback
  rw [hlow]
  rcases Nat.mod_two_eq_zero_or_one a.toNat with ha | ha <;>
    rcases Nat.mod_two_eq_zero_or_one b.toNat with hb | hb <;>
    rw [ha, hb] <;> decide

theorem shift_xor (a b : UInt32) : shift (a ^^^ b) = shift a ^^^ shift b := by
  rw [shift_eq, shift_eq, shift_eq, feedback_xor, UInt32.shiftRight_xor]
  ac_rfl

theorem toNat_shiftRight_one (c : UInt32) : (c >>> 1).toNat = c.toNat / 2 := by
  rw [UInt32.toNat_shiftRight]
  exact Nat.shiftRight_eq_div_pow c.toNat 1

/-- The polynomial, with its top bit, is no register shifted once. -/
theorem eq_zero_of_shift {c : UInt32} (h : shift c = 0) : c = 0 := by
  rw [shift_eq, UInt32.xor_eq_zero_iff] at h
  have hhalf := toNat_shiftRight_one c
  rw [h] at hhalf
  have hc := c.toNat_lt
  unfold feedback at hhalf
  split at hhalf
  · have hpoly : polynomial.toNat = 0xEDB88320 := rfl
    omega
  · rw [UInt32.toNat_zero] at hhalf
    rw [← UInt32.toNat_inj, UInt32.toNat_zero]
    omega

theorem shift_injective : Function.Injective shift := by
  intro a b h
  rw [← UInt32.xor_eq_zero_iff, ← shift_xor] at h
  exact UInt32.xor_eq_zero_iff.mp (eq_zero_of_shift h)

/-! ### Many shifts -/

theorem shiftBy_xor (k : Nat) (a b : UInt32) :
    shiftBy k (a ^^^ b) = shiftBy k a ^^^ shiftBy k b := by
  induction k generalizing a b with
  | zero => rfl
  | succ k ih => rw [shiftBy, shift_xor, ih, shiftBy, shiftBy]

theorem shiftBy_injective (k : Nat) : Function.Injective (shiftBy k) := by
  induction k with
  | zero => exact fun _ _ h => h
  | succ k ih => exact fun _ _ h => shift_injective (ih h)

theorem shiftBy_add (j k : Nat) (c : UInt32) : shiftBy (j + k) c = shiftBy k (shiftBy j c) := by
  induction j generalizing c with
  | zero => rw [Nat.zero_add, shiftBy]
  | succ j ih => rw [Nat.succ_add, shiftBy, ih, shiftBy]

theorem shiftBy_double {k v : Nat} (h : 2 ^ k * v < 2 ^ 32) :
    shiftBy k (UInt32.ofNat (2 ^ k * v)) = UInt32.ofNat v := by
  induction k with
  | zero => rw [shiftBy, Nat.pow_zero, Nat.one_mul]
  | succ k ih =>
      have hsplit : 2 ^ (k + 1) * v = 2 * (2 ^ k * v) := by
        rw [Nat.pow_succ, Nat.mul_comm _ 2, Nat.mul_assoc]
      rw [hsplit] at h ⊢
      have hhalf : 2 ^ k * v < 2 ^ 32 := by omega
      have hval : (UInt32.ofNat (2 * (2 ^ k * v))).toNat = 2 * (2 ^ k * v) :=
        UInt32.toNat_ofNat_of_lt' h
      have hshift : shift (UInt32.ofNat (2 * (2 ^ k * v))) = UInt32.ofNat (2 ^ k * v) := by
        rw [shift_eq, feedback, hval, if_neg (by omega), UInt32.xor_zero, ← UInt32.toNat_inj,
          toNat_shiftRight_one, hval, UInt32.toNat_ofNat_of_lt' hhalf]
        omega
      rw [shiftBy, hshift, ih hhalf]

/-! ### Bytes -/

theorem xor_two_pow_mul {k v : Nat} (h : v < 2 ^ k) (w : Nat) :
    v ^^^ 2 ^ k * w = 2 ^ k * w + v := by
  apply Nat.eq_of_testBit_eq
  intro i
  rw [Nat.testBit_xor, Nat.testBit_two_pow_mul, Nat.testBit_two_pow_mul_add w h]
  by_cases hi : i < k
  · simp [hi, Nat.not_le.mpr hi]
  · have hv : v.testBit i = false :=
      Nat.testBit_lt_two_pow (Nat.lt_of_lt_of_le h (Nat.pow_le_pow_right (by decide) (by omega)))
    simp [hi, hv, Nat.not_lt.mp hi]

/-- Up to four bytes enter the register as one number. -/
theorem run_eq_shiftBy (c : UInt32) {bs : List UInt8} (h : bs.length ≤ 4) :
    run c bs = shiftBy (8 * bs.length) (c ^^^ UInt32.ofNat (LittleEndian.decode bs)) := by
  induction bs generalizing c with
  | nil => simp [run, shiftBy, LittleEndian.decode]
  | cons b bs ih =>
      rw [List.length_cons] at h
      have hlt := LittleEndian.decode_lt bs
      rw [LittleEndian.bound_eq] at hlt
      have hpow : 2 ^ (8 * bs.length) ≤ 2 ^ 24 := Nat.pow_le_pow_right (by decide) (by omega)
      have hrest := shiftBy_double (k := 8) (v := LittleEndian.decode bs) (by omega)
      have hbyte : b.toUInt32 ^^^ UInt32.ofNat (2 ^ 8 * LittleEndian.decode bs) =
          UInt32.ofNat (LittleEndian.decode (b :: bs)) := by
        have hb : b.toUInt32 = UInt32.ofNat b.toNat := by rw [UInt32.ofNat_uInt8ToNat]
        rw [hb, ← UInt32.ofNat_xor, xor_two_pow_mul b.toNat_lt, Nat.add_comm]
        rfl
      calc run c (b :: bs) = run (feed c b) bs := rfl
        _ = shiftBy (8 * bs.length) (feed c b ^^^ UInt32.ofNat (LittleEndian.decode bs)) :=
          ih _ (by omega)
        _ = shiftBy (8 * bs.length) (shiftBy 8
              ((c ^^^ b.toUInt32) ^^^ UInt32.ofNat (2 ^ 8 * LittleEndian.decode bs))) := by
          rw [shiftBy_xor 8, hrest, feed]
        _ = shiftBy (8 * (b :: bs).length)
              (c ^^^ UInt32.ofNat (LittleEndian.decode (b :: bs))) := by
          rw [UInt32.xor_assoc, hbyte, ← shiftBy_add, List.length_cons, Nat.mul_succ, Nat.add_comm]

/-- No byte that follows makes two registers equal. -/
theorem run_injective (bs : List UInt8) : Function.Injective fun c => run c bs := by
  induction bs with
  | nil => exact fun _ _ h => h
  | cons b bs ih => exact fun _ _ h => (UInt32.xor_left_inj _).mp (shiftBy_injective 8 (ih h))

/-- Up to four bytes leave their mark on the register. -/
theorem run_ne_of_short (c : UInt32) {xs ys : List UInt8} (hlen : xs.length = ys.length)
    (hshort : xs.length ≤ 4) (hne : xs ≠ ys) : run c xs ≠ run c ys := by
  have hbound : ∀ bs : List UInt8, bs.length ≤ 4 → LittleEndian.decode bs < 2 ^ 32 := by
    intro bs hbs
    have hlt := LittleEndian.decode_lt bs
    rw [LittleEndian.bound_eq] at hlt
    exact Nat.lt_of_lt_of_le hlt (Nat.pow_le_pow_right (by decide) (by omega))
  intro hrun
  rw [run_eq_shiftBy c hshort, run_eq_shiftBy c (hlen ▸ hshort), hlen] at hrun
  have hword := (UInt32.xor_right_inj c).mp (shiftBy_injective _ hrun)
  rw [← UInt32.toNat_inj, UInt32.toNat_ofNat_of_lt' (hbound xs hshort),
    UInt32.toNat_ofNat_of_lt' (hbound ys (hlen ▸ hshort))] at hword
  exact hne (LittleEndian.decode_injective hlen hword)

/-- Messages that differ, but only within four bytes in a row, have different checksums. -/
theorem ofList_ne_of_burst {xs ys : List UInt8} (start : Nat) (hlen : xs.length = ys.length)
    (hout : ∀ i, i < start ∨ start + 4 ≤ i → xs[i]? = ys[i]?) (hne : xs ≠ ys) :
    ofList xs ≠ ofList ys := by
  have hsplit : ∀ bs : List UInt8,
      bs = bs.take start ++ ((bs.drop start).take 4 ++ bs.drop (start + 4)) := by
    intro bs
    rw [← List.drop_drop, List.take_append_drop, List.take_append_drop]
  have hbefore : xs.take start = ys.take start := by
    apply List.ext_getElem?
    intro i
    rw [List.getElem?_take, List.getElem?_take]
    split
    · next hi => exact hout i (.inl hi)
    · rfl
  have hafter : xs.drop (start + 4) = ys.drop (start + 4) := by
    apply List.ext_getElem?
    intro i
    rw [List.getElem?_drop, List.getElem?_drop]
    exact hout _ (.inr (by omega))
  have hwindow : (xs.drop start).take 4 ≠ (ys.drop start).take 4 := by
    intro hw
    apply hne
    rw [hsplit xs, hsplit ys, hbefore, hw, hafter]
  intro heq
  unfold ofList at heq
  rw [UInt32.xor_left_inj, hsplit xs, hsplit ys, hbefore, hafter, run_append, run_append,
    run_append, run_append] at heq
  refine run_ne_of_short _ ?_ ?_ hwindow (run_injective _ heq)
  · simp [hlen]
  · exact List.length_take_le 4 _

end Crc32

end PagedIndex
