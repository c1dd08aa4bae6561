import Mathlib.Data.List.DropRight
import Mathlib.Data.List.Lex
import PagedIndex.Key.ByteString

/-! # Padded and cut strings

A string of any length becomes a key by `fit`, which pads it with zeros or cuts it.  Zero is the
least byte, so padding and cutting never turn the order of two strings round (`compare_fit_isLE`),
and they forget nothing but the bytes past the width and the zeros before it (`fit_eq_iff`).  A
string that fits and does not end in a zero therefore keeps its place among the others of this kind
(`ofBytes_ordered`). -/

namespace PagedIndex

/-! ### The order of strings -/

theorem compare_cons_cons (x y : UInt8) (xs ys : List UInt8) :
    compare (x :: xs) (y :: ys) = (compare x y).then (compare xs ys) := by
  simp only [List.compare_eq_compareLex, List.compareLex_cons_cons]

theorem compare_eq_lt_iff (a b : List UInt8) : compare a b = .lt ↔ a < b := by
  induction a generalizing b with
  | nil => cases b <;> simp
  | cons x xs ih =>
      cases b with
      | nil => simp
      | cons y ys =>
          rw [compare_cons_cons, Ordering.then_eq_lt, ih, List.cons_lt_cons_iff, Std.compare_eq_lt,
            Std.compare_eq_iff_eq]

theorem compare_isLE_iff (a b : List UInt8) : (compare a b).isLE ↔ a ≤ b := by
  rw [Ordering.isLE_iff_ne_gt, ← List.not_lt, ← compare_eq_lt_iff, Std.OrientedCmp.gt_iff_lt]

namespace ByteKey

variable {n : Nat}

/-! ### Padding keeps the order -/

theorem fit_zero (bs : List UInt8) : fit 0 bs = [] := by
  simp [fit]

theorem fit_succ_nil (n : Nat) : fit (n + 1) [] = 0 :: fit n [] := by
  simp [fit, List.replicate_succ]

theorem fit_succ_cons (n : Nat) (x : UInt8) (xs : List UInt8) :
    fit (n + 1) (x :: xs) = x :: fit n xs := by
  simp [fit]

/-- A string that is not above another one is not above it when both are padded or cut. -/
theorem compare_fit_isLE {a b : List UInt8} (h : (compare a b).isLE) :
    (compare (fit n a) (fit n b)).isLE := by
  induction n generalizing a b with
  | zero => rw [fit_zero, fit_zero, Std.compare_self]; rfl
  | succ n ih =>
      cases a with
      | nil =>
          cases b with
          | nil => rw [Std.compare_self]; rfl
          | cons y ys =>
              -- A zero of the padding meets a byte of the longer string.
              rw [fit_succ_nil, fit_succ_cons, compare_cons_cons, Ordering.isLE_then_iff_or,
                Std.compare_eq_lt, Std.compare_eq_iff_eq]
              have hnil : (compare ([] : List UInt8) ys).isLE := by cases ys <;> rfl
              by_cases hy : 0 = y
              · exact .inr ⟨hy, ih hnil⟩
              · exact .inl (UInt8.pos_iff_ne_zero.mpr (Ne.symm hy))
      | cons x xs =>
          cases b with
          | nil => simp at h
          | cons y ys =>
              rw [compare_cons_cons, Ordering.isLE_then_iff_or] at h
              rw [fit_succ_cons, fit_succ_cons, compare_cons_cons, Ordering.isLE_then_iff_or]
              exact h.imp_right fun hrest => ⟨hrest.1, ih hrest.2⟩

/-! ### What padding forgets -/

/-- A string without the zeros at its end. -/
def trimmed (bs : List UInt8) : List UInt8 := bs.rdropWhile (· = 0)

theorem trimmed_padded (bs : List UInt8) (count : Nat) :
    trimmed (bs ++ List.replicate count 0) = trimmed bs := by
  induction count with
  | zero => rw [List.replicate_zero, List.append_nil]
  | succ count ih =>
      rw [List.replicate_succ', ← List.append_assoc, trimmed, List.rdropWhile_concat_pos _ _ _ rfl]
      exact ih

theorem exists_padding (bs : List UInt8) : ∃ count, bs = trimmed bs ++ List.replicate count 0 := by
  induction bs using List.reverseRecOn with
  | nil => exact ⟨0, rfl⟩
  | append_singleton bs x ih =>
      by_cases hx : x = 0
      · obtain ⟨count, hbs⟩ := ih
        have htrim : trimmed (bs ++ [x]) = trimmed bs := hx ▸ trimmed_padded bs 1
        refine ⟨count + 1, ?_⟩
        rw [htrim, List.replicate_succ', ← List.append_assoc, ← hbs, hx]
      · have htrim : trimmed (bs ++ [x]) = bs ++ [x] :=
          List.rdropWhile_concat_neg _ _ _ (by simpa using hx)
        exact ⟨0, by rw [htrim, List.replicate_zero, List.append_nil]⟩

theorem fit_padded (bs : List UInt8) (count : Nat) :
    fit n (bs ++ List.replicate count 0) = fit n bs := by
  induction n generalizing bs count with
  | zero => rw [fit_zero, fit_zero]
  | succ n ih =>
      cases bs with
      | cons x xs => rw [List.cons_append, fit_succ_cons, fit_succ_cons, ih]
      | nil =>
          cases count with
          | zero => rfl
          | succ count =>
              have hrest := ih [] count
              rw [List.nil_append] at hrest ⊢
              rw [List.replicate_succ, fit_succ_cons, hrest, fit_succ_nil]

theorem fit_take (bs : List UInt8) : fit n (bs.take n) = fit n bs := by
  induction n generalizing bs with
  | zero => rw [fit_zero, fit_zero]
  | succ n ih =>
      cases bs with
      | nil => rfl
      | cons x xs => rw [List.take_succ_cons, fit_succ_cons, fit_succ_cons, ih]

theorem fit_trimmed (bs : List UInt8) : fit n (trimmed bs) = fit n bs := by
  obtain ⟨count, hbs⟩ := exists_padding bs
  conv_rhs => rw [hbs, fit_padded]

/-- Two strings are padded or cut to the same key when they agree up to the width and to zeros at
the end. -/
theorem fit_eq_iff {a b : List UInt8} :
    fit n a = fit n b ↔ trimmed (a.take n) = trimmed (b.take n) := by
  have htrim : ∀ bs : List UInt8, trimmed (fit n bs) = trimmed (bs.take n) := fun bs =>
    trimmed_padded (bs.take n) (n - bs.length)
  have hfit : ∀ bs : List UInt8, fit n (trimmed (bs.take n)) = fit n bs := fun bs =>
    (fit_trimmed _).trans (fit_take bs)
  constructor
  · intro h
    rw [← htrim, h, htrim]
  · intro h
    rw [← hfit, h, hfit]

/-! ### Keys of strings -/

/-- A string of which a key of `n` bytes loses nothing. -/
structure Fits (n : Nat) (bs : List UInt8) : Prop where
  length_le : bs.length ≤ n
  last_ne : bs.getLast? ≠ some 0

theorem Fits.trimmed_take {bs : List UInt8} (h : Fits n bs) : trimmed (bs.take n) = bs := by
  rw [List.take_of_length_le h.length_le, trimmed, List.rdropWhile_eq_self_iff]
  intro hne hzero
  exact h.last_ne (by rw [List.getLast?_eq_some_getLast hne, of_decide_eq_true hzero])

theorem Fits.fit_inj {a b : List UInt8} (ha : Fits n a) (hb : Fits n b) :
    fit n a = fit n b ↔ a = b := by
  rw [fit_eq_iff, ha.trimmed_take, hb.trimmed_take]

theorem natural_ofBytes (a b : List UInt8) :
    Key.natural (ofBytes n a) (ofBytes n b) = compare (fit n a) (fit n b) := rfl

/-- Strings in order have keys in order; two strings have the same key exactly when their first `n`
bytes differ in zeros at the end only; and strings of which nothing is lost are in the order of
their keys. -/
theorem ofBytes_ordered (n : Nat) (a b : List UInt8) :
    (a ≤ b → (Key.natural (ofBytes n a) (ofBytes n b)).isLE) ∧
    (ofBytes n a = ofBytes n b ↔ trimmed (a.take n) = trimmed (b.take n)) ∧
    (Fits n a → Fits n b → (a < b ↔ Key.natural (ofBytes n a) (ofBytes n b) = .lt)) := by
  have hle : ∀ {a b : List UInt8}, a ≤ b → (compare (fit n a) (fit n b)).isLE := fun h =>
    compare_fit_isLE ((compare_isLE_iff _ _).mpr h)
  have hsame : ofBytes n a = ofBytes n b ↔ fit n a = fit n b := ByteKey.ext_iff
  refine ⟨hle, hsame.trans fit_eq_iff, fun ha hb => ?_⟩
  rw [natural_ofBytes]
  constructor
  · intro hlt
    have hisLE := Ordering.isLE_iff_eq_lt_or_eq_eq.mp (hle (List.le_of_lt hlt))
    refine hisLE.resolve_right fun heq => ?_
    rw [Std.compare_eq_iff_eq, ha.fit_inj hb] at heq
    exact List.lt_irrefl b (heq ▸ hlt)
  · intro hlt
    refine List.not_le.mp fun hba => ?_
    rw [← Std.OrientedCmp.gt_iff_lt] at hlt
    exact Ordering.isLE_iff_ne_gt.mp (hle hba) hlt

/-- A string, and a longer one that goes on with a zero. -/
theorem ofBytes_ordered_prefix :
    Fits 4 [1] ∧ Fits 4 [1, 0, 2] ∧
      (Key.natural (ofBytes 4 [1]) (ofBytes 4 [1, 0, 2])).isLE ∧
      Key.natural (ofBytes 4 [1]) (ofBytes 4 [1, 0, 2]) = .lt := by
  have ha : Fits 4 [1] := ⟨by decide, by decide⟩
  have hb : Fits 4 [1, 0, 2] := ⟨by decide, by decide⟩
  have hlt : ([1] : List UInt8) < [1, 0, 2] := by decide
  obtain ⟨hle, -, hstrict⟩ := ofBytes_ordered 4 [1] [1, 0, 2]
  exact ⟨ha, hb, hle (List.le_of_lt hlt), (hstrict ha hb).mp hlt⟩

end ByteKey

end PagedIndex
