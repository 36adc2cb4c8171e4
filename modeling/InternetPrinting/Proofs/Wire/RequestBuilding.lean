import InternetPrinting.Proofs.Wire.RequestReading
import Mathlib.Algebra.Ring.Nat

/-!
# What building a request yields

The keyword is looked up first, then the fields are measured, and only then
is anything written. Measuring and writing are two passes over the attributes.
What measuring lets through has fields whose lengths fit into two bytes, so
the lengths written in front of them are the true ones.

Lengths are those of the texts as UTF-8.
-/

namespace InternetPrinting

open Message (header fieldLimit)
open Text (utf8 length_utf8)

namespace RequestAttributes

variable {attributes : RequestAttributes} {row : String × List String}

/-- The lengths of the fields of an entry. That of the name is there even if the
entry has no values. -/
def sizes (row : String × List String) : List Nat :=
  row.1.utf8ByteSize :: row.2.map String.utf8ByteSize

/-- An entry has a name or a value that a field cannot hold. -/
def TooLong (row : String × List String) : Prop :=
  65535 < row.1.utf8ByteSize ∨ ∃ value ∈ row.2, 65535 < value.utf8ByteSize

/-- The first entry in order with a field that is too long has this name, and the
longest of its fields this length. -/
inductive FirstTooLong : RequestAttributes → String → Nat → Prop
  | intro {before after : List (String × List String)} {name : String} {values : List String}
      {length : Nat} (earlier : ∀ row ∈ before, ¬ TooLong row) (here : TooLong (name, values))
      (longest : (sizes (name, values)).max? = some length) :
      FirstTooLong ⟨before ++ (name, values) :: after⟩ name length

/-- Bytes that spell pairs of a name and a value one after another. Each is a tag
and two texts, and two bytes in front of each text tell its length. -/
inductive Framed : Bytes → List (String × String) → Bytes → Prop
  | nil (rest : Bytes) : Framed rest [] rest
  | cons {bytes behindName behind rest : Bytes} {name value : String}
      {pairs : List (String × String)} (nameField : bytes.Prefixed (utf8 name) behindName)
      (valueField : behindName.Prefixed (utf8 value) behind) (others : Framed behind pairs rest) :
      Framed (0x47 :: bytes) ((name, value) :: pairs) rest

theorem max?_sizes (row : String × List String) : (sizes row).max? = some (longest row) := by
  simp only [sizes, longest, List.max?_cons', length_utf8]

/-- An entry is too long exactly when its longest field is. -/
theorem tooLong_iff : TooLong row ↔ fieldLimit < longest row := by
  rw [fieldLimit, ← Nat.not_le, longest_le_iff, TooLong, length_utf8]
  simp only [length_utf8, not_and_or, not_forall, Nat.not_le, exists_prop]

/-- The entry that is reported is the first one that is too long. -/
theorem tooLong?_eq_some_iff {fault : Fault} :
    tooLong? attributes = some fault ↔
      ∃ name length, fault = .attributeTooLong name length ∧
        FirstTooLong attributes name length := by
  obtain ⟨rows⟩ := attributes
  simp only [tooLong?, Option.map_eq_some_iff, List.find?_eq_some_iff_append]
  constructor
  · rintro ⟨⟨name, values⟩, ⟨long, before, after, rfl, earlier⟩, rfl⟩
    refine ⟨name, longest (name, values), rfl, .intro ?_ ?_ (max?_sizes _)⟩
    · intro row member
      simpa [tooLong_iff] using earlier row member
    · simpa [tooLong_iff] using long
  · rintro ⟨_, _, rfl, ⟨earlier, long, longest⟩⟩
    rw [max?_sizes, Option.some_inj] at longest
    subst longest
    refine ⟨_, ⟨?_, _, _, rfl, ?_⟩, rfl⟩
    · simpa [tooLong_iff] using long
    · intro row member
      simpa [tooLong_iff] using earlier row member

theorem tooLong?_eq_none_iff_forall_not :
    tooLong? attributes = none ↔ ∀ row ∈ attributes.rows, ¬ TooLong row := by
  simp only [tooLong?, Option.map_eq_none_iff, List.find?_eq_none, decide_eq_true_eq, tooLong_iff]

/-- Pairs of texts that a field can hold are framed by their bytes. -/
theorem framed_flatMap_pairBytes {pairs : List (String × String)} (rest : Bytes)
    (short : ∀ pair ∈ pairs, (utf8 pair.1).length ≤ 65535 ∧ (utf8 pair.2).length ≤ 65535) :
    Framed (pairs.flatMap pairBytes ++ rest) pairs rest := by
  induction pairs with
  | nil => exact .nil rest
  | cons pair pairs ih =>
      obtain ⟨⟨shortName, shortValue⟩, shortOthers⟩ := List.forall_mem_cons.mp short
      rw [List.flatMap_cons, pairBytes, List.cons_append, List.cons_append, List.append_assoc,
        List.append_assoc]
      apply Framed.cons
      · exact Bytes.prefixed_field_append (Nat.lt_succ_of_le shortName) _
      · exact Bytes.prefixed_field_append (Nat.lt_succ_of_le shortValue) _
      · exact ih shortOthers

/-- What is written for attributes that pass the check frames their values. -/
theorem framed_bytes (short : tooLong? attributes = none) (rest : Bytes) :
    Framed (bytes attributes ++ rest) (pairs attributes) rest := by
  apply framed_flatMap_pairBytes
  intro pair member
  exact length_le_of_mem_pairs short member

/-- A pair takes five bytes more than its texts: the tag and two lengths. -/
theorem Framed.length_eq {bytes rest : Bytes} {pairs : List (String × String)}
    (framed : Framed bytes pairs rest) :
    bytes.length =
      (pairs.map fun pair => 5 + pair.1.utf8ByteSize + pair.2.utf8ByteSize).sum + rest.length := by
  induction framed with
  | nil rest => simp
  | cons nameField valueField others ih =>
      have name := nameField.length_eq
      have value := valueField.length_eq
      rw [length_utf8] at name value
      simp only [List.length_cons, List.map_cons, List.sum_cons]
      omega

end RequestAttributes

namespace Request

open RequestAttributes (pairs tooLong? TooLong FirstTooLong Framed)

theorem encode_eq_error_iff {r : Request} {fault : Fault} :
    r.encode = .error fault ↔ tooLong? r.attributes = some fault := by
  unfold encode
  split
  · next h => simp [h]
  · next h => simp [h]

variable {keyword : String} {id : RequestId} {attributes : RequestAttributes}
  {payload : Option Bytes}

/-- Under the keyword of an operation its request is written. -/
theorem build_name (operation : Operation) (id : RequestId) (attributes : RequestAttributes)
    (payload : Option Bytes) :
    build operation.name id attributes payload =
      encode ⟨1, 1, operation, id.toUInt32, attributes, payload⟩ := by
  simp only [build, ofName, Operation.ofName_name]

/-- A keyword is unsupported exactly when no operation has it. Nothing else is looked at. -/
theorem build_eq_unsupportedOperation_iff :
    build keyword id attributes payload = .error (.unsupportedOperation keyword) ↔
      ∀ operation : Operation, operation.name ≠ keyword := by
  constructor
  · rintro refused operation rfl
    rw [build_name, encode_eq_error_iff, RequestAttributes.tooLong?_eq_some_iff] at refused
    obtain ⟨name, length, same, -⟩ := refused
    cases same
  · intro unknown
    have missing : Operation.ofName keyword = .error (.unsupportedOperation keyword) := by
      apply Operation.ofName_eq_error_iff.mpr
      exact unknown
    simp only [build, ofName, missing]

/-- Every way in which building a request can end. An unknown keyword is reported
whatever the attributes are. For a known one the fault names the first entry with
a field that is too long and tells the length of its longest field. If there is no
such entry, the message is the header, the values framed one after another, the end
tag and the document. -/
theorem build_exact (keyword : String) (id : RequestId) (attributes : RequestAttributes)
    (payload : Option Bytes) :
    (build keyword id attributes payload = .error (.unsupportedOperation keyword) ↔
      ∀ operation : Operation, operation.name ≠ keyword) ∧
    ∀ operation : Operation, operation.name = keyword →
      ((∃ name length,
          build keyword id attributes payload = .error (.attributeTooLong name length)) ↔
        ∃ row ∈ attributes.rows, TooLong row) ∧
      (∀ name length,
        build keyword id attributes payload = .error (.attributeTooLong name length) ↔
          FirstTooLong attributes name length) ∧
      ((∀ row ∈ attributes.rows, ¬ TooLong row) →
        ∃ message body, build keyword id attributes payload = .ok message ∧
          message = header 1 1 operation.code id.toUInt32 ++ body ∧
          Framed body (pairs attributes) (0x03 :: payload.getD []) ∧
          message.length = 9 + ((pairs attributes).map fun pair =>
            5 + pair.1.utf8ByteSize + pair.2.utf8ByteSize).sum + (payload.getD []).length) := by
  refine ⟨build_eq_unsupportedOperation_iff, ?_⟩
  rintro operation rfl
  have reported : ∀ name length,
      build operation.name id attributes payload = .error (.attributeTooLong name length) ↔
        FirstTooLong attributes name length := by
    intro name length
    rw [build_name, encode_eq_error_iff, RequestAttributes.tooLong?_eq_some_iff]
    constructor
    · rintro ⟨_, _, same, first⟩
      cases same
      exact first
    · exact fun first => ⟨name, length, rfl, first⟩
  refine ⟨?_, reported, ?_⟩
  · constructor
    · rintro ⟨name, length, refused⟩
      obtain ⟨-, here, -⟩ := (reported name length).mp refused
      exact ⟨_, by simp, here⟩
    · intro long
      cases found : tooLong? attributes with
      | none =>
          obtain ⟨row, member, here⟩ := long
          exact absurd here
            (RequestAttributes.tooLong?_eq_none_iff_forall_not.mp found row member)
      | some fault =>
          obtain ⟨name, length, -, first⟩ := RequestAttributes.tooLong?_eq_some_iff.mp found
          exact ⟨name, length, (reported name length).mpr first⟩
  · intro fits
    have short := RequestAttributes.tooLong?_eq_none_iff_forall_not.mpr fits
    have framed := RequestAttributes.framed_bytes short (0x03 :: payload.getD [])
    refine ⟨_, _, ?_, rfl, framed, ?_⟩
    · rw [build_name, encode_eq_ok_iff]
      exact ⟨short, (List.append_assoc _ _ _).symm⟩
    · rw [List.length_append, Message.length_header, framed.length_eq,
        List.length_cons]
      omega

/-- A letter of two bytes counts twice, and a name without values leaves no trace. -/
example :
    build "get-jobs" ⟨7, by decide⟩ ⟨[("a", ["\u00fc"]), ("b", [])]⟩ none =
      .ok [0x01, 0x01, 0x00, 0x0A, 0x00, 0x00, 0x00, 0x07,
        0x47, 0x00, 0x01, 0x61, 0x00, 0x02, 0xC3, 0xBC, 0x03] := by
  decide

end Request

end InternetPrinting
