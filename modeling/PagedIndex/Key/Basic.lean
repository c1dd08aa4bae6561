import PagedIndex.Bytes.LittleEndian
import PagedIndex.Fault

/-! # Keys

A type of index keys has one encoded width, and its keys and the byte strings of that width are
in bijection: a key moved as raw bytes and a key moved by decoding and encoding are the same key.
A comparator is any function `K → K → Ordering`; `Key.natural` is the order of the type. -/

namespace PagedIndex

/-- Types whose values are stored in the slots of a node. -/
class Key (K : Type) where
  /-- Bytes taken by one key. -/
  width : Nat
  encode : K → List UInt8
  decode : List UInt8 → K
  length_encode : ∀ k, (encode k).length = width
  decode_encode : ∀ k, decode (encode k) = k
  encode_decode : ∀ bs, bs.length = width → encode (decode bs) = bs

/-- How keys are written in dumps. -/
class KeyText (K : Type) where
  text : K → String
  debugText : K → String

namespace Key

variable {K : Type} [Key K]

/-- The key at the start of a run of bytes that is long enough. -/
def ofBytes? (bs : List UInt8) : Except Fault K :=
  if width K ≤ bs.length then .ok (decode (bs.take (width K))) else .error .outOfBounds

/-- Replace the first bytes of a run that is long enough by the encoded key. -/
def overwrite? (k : K) (bs : List UInt8) : Except Fault (List UInt8) :=
  if width K ≤ bs.length then .ok (encode k ++ bs.drop (width K)) else .error .outOfBounds

/-- The order of the key type as a comparator. -/
def natural {K : Type} [Ord K] : K → K → Ordering := compare

end Key

end PagedIndex
