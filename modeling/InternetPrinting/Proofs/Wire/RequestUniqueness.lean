import InternetPrinting.Proofs.Wire.PrefixFree
import InternetPrinting.Proofs.Wire.RequestReading
import Mathlib.Logic.Relation

/-!
# What the message of a request determines

The message of a request can be decoded in one way only. It tells the header,
every value with its name in order, and the bytes of the document, and nothing
else: how the values are grouped into entries, and which entries have none,
leaves no trace in the message.

## Implementation notes

Reading a request as a response keeps the last value of every name alone, so it
cannot tell two requests apart. What does is that entries are prefix free.
-/

namespace InternetPrinting

open Message (header endTag)
open Text (utf8)

namespace Bytes

theorem bigEndian_inj {width n m : Nat} (hn : n < 256 ^ width) (hm : m < 256 ^ width)
    (same : bigEndian width n = bigEndian width m) : n = m := by
  calc
    n = ofBigEndian (bigEndian width n) := (ofBigEndian_bigEndian hn).symm
    _ = ofBigEndian (bigEndian width m) := by rw [same]
    _ = m := ofBigEndian_bigEndian hm

end Bytes

/-- A header tells all its fields. -/
theorem Message.header_inj {major minor major' minor' : UInt8} {code code' : UInt16}
    {requestId requestId' : UInt32}
    (same : header major minor code requestId = header major' minor' code' requestId') :
    major = major' ∧ minor = minor' ∧ code = code' ∧ requestId = requestId' := by
  obtain ⟨rfl, tail⟩ := List.cons.inj same
  obtain ⟨rfl, numbers⟩ := List.cons.inj tail
  obtain ⟨first, second⟩ := List.append_inj numbers (by simp)
  refine ⟨rfl, rfl, ?_, ?_⟩
  · exact UInt16.toNat_inj.mp (Bytes.bigEndian_inj code.toNat_lt code'.toNat_lt first)
  · exact UInt32.toNat_inj.mp (Bytes.bigEndian_inj requestId.toNat_lt requestId'.toNat_lt second)

namespace RequestAttributes

theorem entryOf_injective : Function.Injective entryOf := by
  rintro ⟨name, value⟩ ⟨name', value'⟩ same
  cases same
  rfl

/-- A change to how values are grouped into entries. -/
inductive Regroups : RequestAttributes → RequestAttributes → Prop
  /-- The values of an entry are shared between two entries with its name. -/
  | split (before after : List (String × List String)) (name : String)
      (values more : List String) :
      Regroups ⟨before ++ (name, values ++ more) :: after⟩
        ⟨before ++ (name, values) :: (name, more) :: after⟩
  /-- There is one more entry without values. -/
  | valueless (before after : List (String × List String)) (name : String)
      (short : (utf8 name).length ≤ 65535) :
      Regroups ⟨before ++ after⟩ ⟨before ++ (name, []) :: after⟩

variable {a b : RequestAttributes}

theorem Regroups.pairs_eq (h : Regroups a b) : pairs a = pairs b := by
  cases h with
  | split before after name values more => simp [pairs]
  | valueless before after name short => simp [pairs]

theorem Regroups.tooLong?_iff (h : Regroups a b) :
    tooLong? a = none ↔ tooLong? b = none := by
  rw [tooLong?_eq_none_iff, tooLong?_eq_none_iff]
  cases h with
  | split before after name values more =>
      simp only [List.forall_mem_append, List.forall_mem_cons]
      tauto
  | valueless before after name short =>
      simp only [List.forall_mem_append, List.forall_mem_cons, List.not_mem_nil, false_implies,
        implies_true, and_true, short, true_and]

theorem tooLong?_append : tooLong? (a.append b) = none ↔ tooLong? a = none ∧ tooLong? b = none := by
  simp only [tooLong?_eq_none_iff, Table.append, List.forall_mem_append]

end RequestAttributes

namespace Request

open RequestAttributes (Regroups pairs tooLong?)

/-- Requests with the same header, the same values under the same names in the
same order, and the same bytes of a document. -/
structure SameContent (r s : Request) : Prop where
  major : r.major = s.major
  minor : r.minor = s.minor
  operation : r.operation = s.operation
  id : r.id = s.id
  pairs : pairs r.attributes = pairs s.attributes
  payload : r.payload.getD [] = s.payload.getD []

variable {r s : Request}

theorem SameContent.bytes_eq (same : r.SameContent s) : r.bytes = s.bytes := by
  simp only [bytes, RequestAttributes.bytes, same.major, same.minor, same.operation, same.id,
    same.pairs, same.payload]

/-- The bytes of requests that fit tell their content. -/
theorem sameContent_of_bytes_eq (short : tooLong? r.attributes = none)
    (short' : tooLong? s.attributes = none) (same : r.bytes = s.bytes) : r.SameContent s := by
  rw [bytes, bytes, List.append_assoc, List.append_assoc] at same
  obtain ⟨headers, behind⟩ := List.append_inj same (by simp)
  obtain ⟨major, minor, code, id⟩ := Message.header_inj headers
  obtain ⟨entries, payload⟩ := (RequestAttributes.spellsAll_bytes short).unique
    (RequestAttributes.spellsAll_bytes short') behind
  have pairs := List.map_injective_iff.mpr RequestAttributes.entryOf_injective entries
  exact ⟨major, minor, Operation.code_injective code, id, pairs, payload⟩

/-- How values are grouped does not matter to the message. -/
theorem encode_eq_ok_iff_of_regroups {a b : RequestAttributes} (regrouped : Regroups a b)
    (r : Request) (message : Bytes) :
    { r with attributes := a }.encode = .ok message ↔
      { r with attributes := b }.encode = .ok message := by
  have same :
      Request.bytes { r with attributes := a } = Request.bytes { r with attributes := b } := by
    apply SameContent.bytes_eq
    exact ⟨rfl, rfl, rfl, rfl, regrouped.pairs_eq, rfl⟩
  rw [encode_eq_ok_iff, encode_eq_ok_iff, regrouped.tooLong?_iff, same]

theorem encode_eq_ok_iff_of_eqvGen {a b : RequestAttributes}
    (regrouped : Relation.EqvGen Regroups a b) (r : Request) (message : Bytes) :
    { r with attributes := a }.encode = .ok message ↔
      { r with attributes := b }.encode = .ok message := by
  induction regrouped with
  | rel a b step => exact encode_eq_ok_iff_of_regroups step r message
  | refl a => exact Iff.rfl
  | symm a b _ ih => exact ih.symm
  | trans a b c _ _ first second => exact first.trans second

/-- What a message tells of the request it was written for is the content of the
request, all of it and nothing more. In particular the values may be grouped into
entries in another way, and entries without values may come and go. Attributes
that are appended are written behind those that were there. -/
theorem encode_unique {r : Request} {message : Bytes} (encoded : r.encode = .ok message) :
    (∀ s other, s.encode = .ok other → (message = other ↔ r.SameContent s)) ∧
    (∀ b, Relation.EqvGen Regroups r.attributes b →
      { r with attributes := b }.encode = .ok message) ∧
    (∀ b other, { r with attributes := b }.encode = .ok other →
      ∃ front own more, front.length = 8 ∧
        message = front ++ own ++ 0x03 :: r.payload.getD [] ∧
        other = front ++ more ++ 0x03 :: r.payload.getD [] ∧
        { r with attributes := r.attributes.append b }.encode =
          .ok (front ++ (own ++ more) ++ 0x03 :: r.payload.getD [])) := by
  obtain ⟨short, rfl⟩ := encode_eq_ok_iff.mp encoded
  refine ⟨?_, ?_, ?_⟩
  · intro s other written
    obtain ⟨short', rfl⟩ := encode_eq_ok_iff.mp written
    constructor
    · exact sameContent_of_bytes_eq short short'
    · exact SameContent.bytes_eq
  · intro b regrouped
    exact (encode_eq_ok_iff_of_eqvGen regrouped r _).mp encoded
  · intro b other written
    obtain ⟨short', rfl⟩ := encode_eq_ok_iff.mp written
    refine ⟨header r.major r.minor r.operation.code r.id, RequestAttributes.bytes r.attributes,
      RequestAttributes.bytes b, Message.length_header _ _ _ _, rfl, rfl, ?_⟩
    apply encode_eq_ok_iff.mpr
    constructor
    · exact RequestAttributes.tooLong?_append.mpr ⟨short, short'⟩
    · rw [bytes, RequestAttributes.bytes_append, endTag]

/-- The values of `twoRows` in one entry. -/
def oneRow : Request :=
  { twoRows with attributes := ⟨[("copies", ["1", "2", "3"])]⟩ }

/-- Without the entry that has no values, and with the other two made one, the
message is the same, and only requests of this content have it. -/
theorem encode_unique_oneRow :
    ∃ message, twoRows.encode = .ok message ∧ oneRow.encode = .ok message ∧
      ∀ s, s.encode = .ok message → twoRows.SameContent s := by
  have encoded : twoRows.encode = .ok twoRows.bytes := encode_eq_ok_iff.mpr ⟨by decide, rfl⟩
  obtain ⟨determined, regroup, -⟩ := encode_unique encoded
  have media : Regroups ⟨[("copies", ["1"]), ("copies", ["2", "3"])]⟩ twoRows.attributes :=
    .valueless [("copies", ["1"])] [("copies", ["2", "3"])] "media" (by decide)
  have copies : Regroups oneRow.attributes ⟨[("copies", ["1"]), ("copies", ["2", "3"])]⟩ :=
    .split [] [] "copies" ["1"] ["2", "3"]
  refine ⟨_, encoded, regroup oneRow.attributes ?_, fun s written => ?_⟩
  · exact .symm _ _ (.trans _ _ _ (.rel _ _ copies) (.rel _ _ media))
  · exact (determined s _ written).mp rfl

end Request

end InternetPrinting
