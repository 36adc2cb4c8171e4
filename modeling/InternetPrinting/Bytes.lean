/-!
# Bytes on the wire

Numbers travel with their most significant byte first, and a field travels as
its length in two bytes followed by its content. Both directions are given.
-/

namespace InternetPrinting

/-- A message or a part of one, first byte first. -/
abbrev Bytes := List UInt8

namespace Bytes

/-- The `width` low bytes of a number, the most significant first. -/
def bigEndian : Nat → Nat → Bytes
  | 0, _ => []
  | width + 1, n => bigEndian width (n / 256) ++ [UInt8.ofNat n]

/-- The number that the bytes spell, the most significant first. -/
def ofBigEndian (bytes : Bytes) : Nat :=
  bytes.foldl (fun n b => n * 256 + b.toNat) 0

/-- A field: the length of the content in two bytes, then the content. -/
def field (content : Bytes) : Bytes :=
  bigEndian 2 content.length ++ content

/-- The content of the field at the front, and what follows the field. -/
def field? (bytes : Bytes) : Option (Bytes × Bytes) :=
  if (bytes.take 2).length = 2 then
    let need := ofBigEndian (bytes.take 2)
    let rest := bytes.drop 2
    if (rest.take need).length = need then some (rest.take need, rest.drop need)
    else none
  else none

@[simp] theorem length_bigEndian (width n : Nat) : (bigEndian width n).length = width := by
  induction width generalizing n with
  | zero => rfl
  | succ width ih => simp [bigEndian, ih]

theorem ofBigEndian_concat (bytes : Bytes) (b : UInt8) :
    ofBigEndian (bytes ++ [b]) = ofBigEndian bytes * 256 + b.toNat := by
  simp [ofBigEndian]

end Bytes

end InternetPrinting
