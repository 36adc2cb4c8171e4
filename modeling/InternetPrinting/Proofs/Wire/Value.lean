import InternetPrinting.Proofs.Wire.Field
import InternetPrinting.Text.Utf8.RoundTrip

/-!
# Values and their tags

The tag of a value and the way its bytes are read determine each other: what
is read under a tag has this tag, and a value is read back from its own tag
and bytes as long as every field in it is short enough.
-/

namespace InternetPrinting

/-- What can be wrong with a message that is read, as opposed to a response
that lacks something. -/
def Malformed.OfMessage : Malformed → Prop
  | .tooShort _ | .truncated .. | .wrongWidth .. | .truncatedLanguage _ => True
  | .missingAttribute _ | .notInteger .. | .noBanner | .described _ => False

section Results

variable {ε α β : Type}

theorem map_eq_ok_iff {x : Except ε α} {f : α → β} {b : β} :
    x.map f = .ok b ↔ ∃ a, x = .ok a ∧ f a = b := by
  cases x <;> simp [Except.map]

theorem map_eq_error_iff {x : Except ε α} {f : α → β} {e : ε} :
    x.map f = .error e ↔ x = .error e := by
  cases x <;> simp [Except.map]

end Results

namespace Value

open Text (utf8 lossy)

section Widths

variable {tag : UInt8} {width : Nat} {raw bytes : Bytes} {cause : Malformed}

theorem exactly_eq_ok_iff :
    exactly tag width raw = .ok bytes ↔ raw.length = width ∧ bytes = raw := by
  by_cases fits : raw.length = width <;> simp [exactly, fits, eq_comm]

theorem exactly_eq_error_iff :
    exactly tag width raw = .error cause ↔
      raw.length ≠ width ∧ cause = .wrongWidth tag width raw.length := by
  by_cases fits : raw.length = width <;> simp [exactly, fits, eq_comm]

theorem leading_eq_ok_iff :
    leading tag width raw = .ok bytes ↔ width ≤ raw.length ∧ bytes = raw.take width := by
  by_cases enough : width ≤ raw.length <;> simp [leading, enough, eq_comm]

theorem leading_eq_error_iff :
    leading tag width raw = .error cause ↔
      raw.length < width ∧ cause = .wrongWidth tag width raw.length := by
  by_cases enough : width ≤ raw.length
  · simp [leading, enough, Nat.not_lt.mpr enough]
  · simp [leading, enough, Nat.lt_of_not_le enough, eq_comm]

end Widths

section WithLanguage

variable {raw : Bytes} {both : String × String} {cause : Malformed}

/-- A text with its language is read exactly where there are two fields. -/
theorem withLanguage_eq_ok_iff :
    withLanguage raw = .ok both ↔
      ∃ language behind text rest, raw.Prefixed language behind ∧ behind.Prefixed text rest ∧
        both = (lossy language, lossy text) := by
  constructor
  · intro read
    unfold withLanguage at read
    split at read
    · cases read
    · next language behind first =>
      split at read
      · cases read
      · next text rest second =>
        cases read
        exact ⟨language, behind, text, rest, Bytes.field?_eq_some_iff.mp first,
          Bytes.field?_eq_some_iff.mp second, rfl⟩
  · rintro ⟨language, behind, text, rest, first, second, rfl⟩
    simp only [withLanguage, Bytes.field?_eq_some_iff.mpr first,
      Bytes.field?_eq_some_iff.mpr second]

/-- It is refused for the first of the two fields that is not there. -/
theorem withLanguage_eq_error_iff :
    withLanguage raw = .error cause ↔
      (∀ language behind, ¬ raw.Prefixed language behind) ∧ cause = .truncatedLanguage .language ∨
      ∃ language behind, raw.Prefixed language behind ∧
        (∀ text rest, ¬ behind.Prefixed text rest) ∧ cause = .truncatedLanguage .text := by
  constructor
  · intro refused
    unfold withLanguage at refused
    split at refused
    · next first =>
      cases refused
      exact .inl ⟨Bytes.field?_eq_none_iff.mp first, rfl⟩
    · next language behind first =>
      split at refused
      · next second =>
        cases refused
        exact .inr ⟨language, behind, Bytes.field?_eq_some_iff.mp first,
          Bytes.field?_eq_none_iff.mp second, rfl⟩
      · cases refused
  · rintro (⟨cut, rfl⟩ | ⟨language, behind, first, cut, rfl⟩)
    · simp only [withLanguage, Bytes.field?_eq_none_iff.mpr cut]
    · simp only [withLanguage, Bytes.field?_eq_some_iff.mpr first, Bytes.field?_eq_none_iff.mpr cut]

end WithLanguage

theorem withLanguage_eq_ok {language text : Bytes} (rest : Bytes)
    (shortLanguage : language.length < 65536) (shortText : text.length < 65536) :
    withLanguage (Bytes.field language ++ (Bytes.field text ++ rest)) =
      .ok (lossy language, lossy text) := by
  simp only [withLanguage, Bytes.field?_field_append _ _ shortLanguage,
    Bytes.field?_field_append _ _ shortText]

/-- A value with none of the tags of a kind is kept as it came. -/
theorem decode_of_notMem {tag : UInt8} {raw : Bytes} (h : tag ∉ knownTags) :
    decode tag raw = .ok (.unknown tag raw) := by
  unfold decode
  split <;> first | rfl | exact absurd (by decide) h

/-- What is read under a tag has this tag. -/
theorem tag_of_decode {tag : UInt8} {raw : Bytes} {value : Value}
    (h : decode tag raw = .ok value) : value.tag = tag := by
  unfold decode at h
  split at h
  -- These kinds can fail, and build their value from what was read.
  case h_1 | h_2 | h_3 | h_8 | h_9 =>
    obtain ⟨_, _, rfl⟩ := map_eq_ok_iff.mp h
    rfl
  all_goals
    cases h
    rfl

/-- A value that cannot be read is wrong in itself. -/
theorem ofMessage_of_decode {tag : UInt8} {raw : Bytes} {cause : Malformed}
    (h : decode tag raw = .error cause) : cause.OfMessage := by
  unfold decode at h
  split at h
  case h_1 | h_2 =>
    obtain ⟨-, rfl⟩ := exactly_eq_error_iff.mp (map_eq_error_iff.mp h)
    trivial
  case h_3 =>
    obtain ⟨-, rfl⟩ := leading_eq_error_iff.mp (map_eq_error_iff.mp h)
    trivial
  case h_8 | h_9 =>
    rcases withLanguage_eq_error_iff.mp (map_eq_error_iff.mp h) with
      ⟨-, rfl⟩ | ⟨_, _, -, -, rfl⟩
    · trivial
    · trivial
  all_goals cases h

/-- A value that can be written: its bytes fit into a field, and a value
without a kind has a tag that means nothing else. -/
def Writable : Value → Prop
  | .integer _ | .boolean _ | .enumeration _ => True
  | .octetString raw | .dateTime raw | .resolution raw | .rangeOfInteger raw =>
    raw.length ≤ 65535
  | .textWithLanguage language text | .nameWithLanguage language text =>
    4 + (utf8 language).length + (utf8 text).length ≤ 65535
  | .textWithoutLanguage text | .nameWithoutLanguage text | .keyword text | .uri text
  | .uriScheme text | .charset text | .naturalLanguage text =>
    (utf8 text).length ≤ 65535
  | .unknown tag raw =>
    tag ∉ knownTags ∧ tag ≠ 0x03 ∧ tag ≠ 0x04 ∧ raw.length ≤ 65535

instance (value : Value) : Decidable value.Writable :=
  match value with
  | .integer _ | .boolean _ | .enumeration _ => .isTrue trivial
  | .octetString raw | .dateTime raw | .resolution raw | .rangeOfInteger raw =>
    inferInstanceAs (Decidable (raw.length ≤ 65535))
  | .textWithLanguage language text | .nameWithLanguage language text =>
    inferInstanceAs (Decidable (4 + (utf8 language).length + (utf8 text).length ≤ 65535))
  | .textWithoutLanguage text | .nameWithoutLanguage text | .keyword text | .uri text
  | .uriScheme text | .charset text | .naturalLanguage text =>
    inferInstanceAs (Decidable ((utf8 text).length ≤ 65535))
  | .unknown tag raw =>
    inferInstanceAs (Decidable
      (tag ∉ knownTags ∧ tag ≠ 0x03 ∧ tag ≠ 0x04 ∧ raw.length ≤ 65535))

theorem length_bytes_lt {value : Value} (h : value.Writable) : value.bytes.length < 65536 := by
  cases value <;> simp only [Writable] at h <;> simp [bytes] <;> omega

/-- Only an attribute has the tag of a value. -/
theorem tag_ne_of_writable {value : Value} (h : value.Writable) :
    value.tag ≠ 0x03 ∧ value.tag ≠ 0x04 := by
  cases value with
  | unknown tag raw => exact ⟨h.2.1, h.2.2.1⟩
  | _ => simp [tag]

theorem decode_integer (n : Int32) : decode 0x21 (bytes (.integer n)) = .ok (.integer n) := by
  have small : n.toUInt32.toNat < 256 ^ 4 := n.toUInt32.toNat_lt
  simp only [decode, bytes, exactly_eq_ok_iff.mpr ⟨Bytes.length_bigEndian 4 _, rfl⟩, Except.map,
    Bytes.ofBigEndian_bigEndian small, UInt32.ofNat_toNat, Int32.toInt32_toUInt32]

theorem decode_enumeration (n : UInt16) :
    decode 0x23 (bytes (.enumeration n)) = .ok (.enumeration n) := by
  have small : n.toNat < 256 ^ 2 := n.toNat_lt
  have width : (Bytes.bigEndian 2 n.toNat).length = 2 := Bytes.length_bigEndian 2 _
  simp only [decode, bytes, leading_eq_ok_iff.mpr ⟨Nat.le_of_eq width.symm, rfl⟩,
    List.take_of_length_le (Nat.le_of_eq width), Except.map, Bytes.ofBigEndian_bigEndian small,
    UInt16.ofNat_toNat]

theorem withLanguage_fields {language text : String}
    (h : 4 + (utf8 language).length + (utf8 text).length ≤ 65535) :
    withLanguage (Bytes.field (utf8 language) ++ Bytes.field (utf8 text)) =
      .ok (language, text) := by
  have read : withLanguage (Bytes.field (utf8 language) ++ (Bytes.field (utf8 text) ++ [])) =
      .ok (lossy (utf8 language), lossy (utf8 text)) :=
    withLanguage_eq_ok [] (by omega) (by omega)
  simpa using read

/-- A value is read back from its tag and bytes. -/
theorem decode_tag_bytes {value : Value} (h : value.Writable) :
    decode value.tag value.bytes = .ok value := by
  cases value with
  | integer n => exact decode_integer n
  | boolean b => cases b <;> rfl
  | enumeration n => exact decode_enumeration n
  | unknown tag raw => exact decode_of_notMem h.1
  | textWithLanguage language text | nameWithLanguage language text =>
      simp only [tag, bytes, decode, withLanguage_fields h]
      rfl
  | octetString raw | dateTime raw | resolution raw | rangeOfInteger raw => rfl
  | textWithoutLanguage text | nameWithoutLanguage text | keyword text | uri text
  | uriScheme text | charset text | naturalLanguage text =>
      simp [decode, tag, bytes]

end Value

end InternetPrinting
