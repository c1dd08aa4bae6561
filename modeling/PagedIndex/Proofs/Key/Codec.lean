import PagedIndex.Key.ByteString
import PagedIndex.Key.Integer

/-! # Codecs

Keys and page identifiers are kept at the start of runs of bytes.  A `Codec` is how the values of a
type are put there and taken from there.  It is `Lossless` when a run and the value in it stand for
each other: a value comes back from where it was put and leaves the bytes behind it alone, and a
value taken from one run and put into another one brings its bytes along.  The codecs of all types
of keys and that of page identifiers are lossless (`Key.codec_lossless`,
`PageId.codec_lossless`). -/

namespace PagedIndex

/-- How the values of a type are taken from the first `width` bytes of a run and put there. -/
structure Codec (α : Type) where
  width : Nat
  load : List UInt8 → Except Fault α
  store : α → List UInt8 → Except Fault (List UInt8)

namespace Codec

variable {α : Type}

/-- The codec of values that are written as strings of one width.  It refuses shorter runs. -/
def fixed (width : Nat) (encode : α → List UInt8) (decode : List UInt8 → α) : Codec α where
  width := width
  load bs := if width ≤ bs.length then .ok (decode (bs.take width)) else .error .outOfBounds
  store x bs := if width ≤ bs.length then .ok (encode x ++ bs.drop width) else .error .outOfBounds

/-- Nothing is lost between values and runs of bytes that are long enough. -/
structure Lossless (c : Codec α) : Prop where
  /-- A value that was put into a run is taken from it again; only its own bytes have changed. -/
  load_store : ∀ (x : α) (bs : List UInt8), c.width ≤ bs.length →
    ∃ stored, c.store x bs = .ok stored ∧ c.load stored = .ok x ∧
      stored.length = bs.length ∧ stored.drop c.width = bs.drop c.width
  /-- A value that was taken from a run is put back without a change, and put into another run it
  arrives as the bytes that it was taken from. -/
  store_load : ∀ bs : List UInt8, c.width ≤ bs.length →
    ∃ x, c.load bs = .ok x ∧ c.store x bs = .ok bs ∧
      ∀ dest : List UInt8, c.width ≤ dest.length →
        c.store x dest = .ok (bs.take c.width ++ dest.drop c.width)

variable {width : Nat} {encode : α → List UInt8} {decode : List UInt8 → α}

/-- Values and the strings of their width in bijection make a lossless codec. -/
theorem fixed_lossless (hlength : ∀ x, (encode x).length = width)
    (hdecode : ∀ x, decode (encode x) = x)
    (hencode : ∀ bs, bs.length = width → encode (decode bs) = bs) :
    (fixed width encode decode).Lossless where
  load_store x bs (hbs : width ≤ bs.length) := by
    have hlen : (encode x ++ bs.drop width).length = bs.length := by
      rw [List.length_append, List.length_drop, hlength, Nat.add_sub_cancel' hbs]
    refine ⟨encode x ++ bs.drop width, if_pos hbs, ?_, hlen, List.drop_left' (hlength x)⟩
    have hload : (fixed width encode decode).load (encode x ++ bs.drop width) =
        .ok (decode ((encode x ++ bs.drop width).take width)) := if_pos (hlen ▸ hbs)
    rw [hload, List.take_left' (hlength x), hdecode]
  store_load bs (hbs : width ≤ bs.length) := by
    have hbytes : encode (decode (bs.take width)) = bs.take width :=
      hencode _ (List.length_take_of_le hbs)
    have hstore : ∀ dest : List UInt8, width ≤ dest.length →
        (fixed width encode decode).store (decode (bs.take width)) dest =
          .ok (bs.take width ++ dest.drop width) := by
      intro dest hdest
      exact (if_pos hdest).trans (by rw [hbytes])
    refine ⟨decode (bs.take width), if_pos hbs, ?_, hstore⟩
    rw [hstore bs hbs, List.take_append_drop]

end Codec

/-- How keys are taken from runs of bytes and put there. -/
def Key.codec (K : Type) [Key K] : Codec K := ⟨Key.width K, Key.ofBytes?, Key.overwrite?⟩

theorem Key.codec_lossless (K : Type) [Key K] : (Key.codec K).Lossless :=
  Codec.fixed_lossless Key.length_encode Key.decode_encode Key.encode_decode

/-- How page identifiers are taken from runs of bytes and put there. -/
def PageId.codec : Codec PageId := .fixed PageId.width PageId.encode PageId.decode

theorem PageId.codec_lossless : PageId.codec.Lossless :=
  Codec.fixed_lossless (fun id => Key.length_encode id.val)
    (fun id => PageId.ext (Key.decode_encode id.val))
    (fun bs hbs => Key.encode_decode (K := UInt32) bs hbs)

end PagedIndex
