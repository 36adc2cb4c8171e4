import InternetPrinting.Proofs.Wire.Value
import Mathlib.Algebra.Group.Int.Defs

/-!
# What the bytes of a value mean

Under every tag the bytes of a value have one meaning, or else one cause to be refused
for. An integer and a boolean take all the bytes of a fixed width, an enumeration the
first two, a text with its language two fields at the front. The other kinds take bytes of
any length and are never refused, and neither is a value without a kind. Where bytes
behind the value are allowed, they make no difference.

## Implementation notes

Kinds that are read alike are rows of one table, so that a fact about them is stated once.
The number of an integer is told with a sign for its first byte, and not as a number of
thirty-two bits that is read as signed afterwards.
-/

namespace InternetPrinting.Value

open Bytes (Prefixed)
open Text (lossy)

/-- The kinds that keep their bytes, with their tags. -/
def rawKinds : List (UInt8 × (Bytes → Value)) :=
  [(0x30, .octetString), (0x31, .dateTime), (0x32, .resolution), (0x33, .rangeOfInteger)]

/-- The kinds of a text with its language. -/
def languageKinds : List (UInt8 × (String → String → Value)) :=
  [(0x34, .textWithLanguage), (0x35, .nameWithLanguage)]

/-- The kinds of a text alone. -/
def textKinds : List (UInt8 × (String → Value)) :=
  [(0x41, .textWithoutLanguage), (0x42, .nameWithoutLanguage), (0x44, .keyword), (0x45, .uri),
    (0x46, .uriScheme), (0x47, .charset), (0x48, .naturalLanguage)]

/-- The value that bytes mean under a tag. -/
inductive Means : UInt8 → Bytes → Value → Prop
  | integer {a b c d : UInt8} {n : Int32}
      (signed : n.toInt =
        a.toInt8.toInt * 2 ^ 24 + b.toNat * 2 ^ 16 + c.toNat * 2 ^ 8 + d.toNat) :
      Means 0x21 [a, b, c, d] (.integer n)
  | boolean (b : UInt8) : Means 0x22 [b] (.boolean (b ≠ 0))
  | enumeration {high low : UInt8} {n : UInt16} (number : n.toNat = high.toNat * 256 + low.toNat)
      (rest : Bytes) : Means 0x23 (high :: low :: rest) (.enumeration n)
  | raw {tag : UInt8} {kind : Bytes → Value} (known : (tag, kind) ∈ rawKinds) (bytes : Bytes) :
      Means tag bytes (kind bytes)
  | withLanguage {tag : UInt8} {kind : String → String → Value}
      {bytes language behind text rest : Bytes} (known : (tag, kind) ∈ languageKinds)
      (first : bytes.Prefixed language behind) (second : behind.Prefixed text rest) :
      Means tag bytes (kind (lossy language) (lossy text))
  | text {tag : UInt8} {kind : String → Value} (known : (tag, kind) ∈ textKinds) (bytes : Bytes) :
      Means tag bytes (kind (lossy bytes))
  | unknown {tag : UInt8} (other : tag ∉ knownTags) (bytes : Bytes) :
      Means tag bytes (.unknown tag bytes)

/-- The cause for which bytes are refused under a tag. -/
inductive Refused : UInt8 → Bytes → Malformed → Prop
  | integer {bytes : Bytes} (width : bytes.length ≠ 4) :
      Refused 0x21 bytes (.wrongWidth 0x21 4 bytes.length)
  | boolean {bytes : Bytes} (width : bytes.length ≠ 1) :
      Refused 0x22 bytes (.wrongWidth 0x22 1 bytes.length)
  | enumeration {bytes : Bytes} (width : bytes.length < 2) :
      Refused 0x23 bytes (.wrongWidth 0x23 2 bytes.length)
  | language {tag : UInt8} {kind : String → String → Value} {bytes : Bytes}
      (known : (tag, kind) ∈ languageKinds)
      (cut : ∀ language behind, ¬ bytes.Prefixed language behind) :
      Refused tag bytes (.truncatedLanguage .language)
  | text {tag : UInt8} {kind : String → String → Value} {bytes language behind : Bytes}
      (known : (tag, kind) ∈ languageKinds) (first : bytes.Prefixed language behind)
      (cut : ∀ text rest, ¬ behind.Prefixed text rest) :
      Refused tag bytes (.truncatedLanguage .text)

variable {tag : UInt8} {raw : Bytes}

theorem knownTags_eq :
    knownTags = [0x21, 0x22, 0x23] ++ rawKinds.map (·.1) ++ languageKinds.map (·.1) ++
      textKinds.map (·.1) := rfl

/-- The ways to read a value. -/
theorem reading_cases (tag : UInt8) :
    tag = 0x21 ∨ tag = 0x22 ∨ tag = 0x23 ∨ (∃ kind, (tag, kind) ∈ rawKinds) ∨
      (∃ kind, (tag, kind) ∈ languageKinds) ∨ (∃ kind, (tag, kind) ∈ textKinds) ∨
      tag ∉ knownTags := by
  by_cases known : tag ∈ knownTags
  · have listed : tag = 0x21 ∨ tag = 0x22 ∨ tag = 0x23 ∨ (∃ kind, (tag, kind) ∈ rawKinds) ∨
        (∃ kind, (tag, kind) ∈ languageKinds) ∨ ∃ kind, (tag, kind) ∈ textKinds := by
      simpa [knownTags_eq, or_assoc] using known
    tauto
  · tauto

theorem decode_of_raw {kind : Bytes → Value} (known : (tag, kind) ∈ rawKinds) (raw : Bytes) :
    decode tag raw = .ok (kind raw) := by
  simp only [rawKinds, List.mem_cons, Prod.mk.injEq, List.not_mem_nil, or_false] at known
  rcases known with ⟨rfl, rfl⟩ | ⟨rfl, rfl⟩ | ⟨rfl, rfl⟩ | ⟨rfl, rfl⟩ <;> rfl

theorem decode_of_language {kind : String → String → Value} (known : (tag, kind) ∈ languageKinds)
    (raw : Bytes) : decode tag raw = (withLanguage raw).map fun both => kind both.1 both.2 := by
  simp only [languageKinds, List.mem_cons, Prod.mk.injEq, List.not_mem_nil, or_false] at known
  rcases known with ⟨rfl, rfl⟩ | ⟨rfl, rfl⟩ <;> rfl

theorem decode_of_text {kind : String → Value} (known : (tag, kind) ∈ textKinds) (raw : Bytes) :
    decode tag raw = .ok (kind (lossy raw)) := by
  simp only [textKinds, List.mem_cons, Prod.mk.injEq, List.not_mem_nil, or_false] at known
  rcases known with ⟨rfl, rfl⟩ | ⟨rfl, rfl⟩ | ⟨rfl, rfl⟩ | ⟨rfl, rfl⟩ | ⟨rfl, rfl⟩ | ⟨rfl, rfl⟩ |
    ⟨rfl, rfl⟩ <;> rfl

/-- Only the two kinds of a text with its language have their tags. -/
theorem exists_mem_languageKinds_iff :
    (∃ kind, (tag, kind) ∈ languageKinds) ↔ tag = 0x34 ∨ tag = 0x35 := by
  simp [languageKinds, and_comm, exists_or]

theorem toInt_toInt32 (u : UInt32) : u.toInt32.toInt = (u.toNat : Int).bmod (2 ^ 32) := by
  rw [← UInt32.toNat_toBitVec, ← BitVec.toInt_eq_toNat_bmod]
  rfl

theorem toInt_toInt8 (b : UInt8) : b.toInt8.toInt = (b.toNat : Int).bmod (2 ^ 8) := by
  rw [← UInt8.toNat_toBitVec, ← BitVec.toInt_eq_toNat_bmod]
  rfl

/-- The sign of a number of four bytes is that of its first byte. -/
theorem toInt_ofBigEndian (a b c d : UInt8) :
    (UInt32.ofNat (Bytes.ofBigEndian [a, b, c, d])).toInt32.toInt =
      a.toInt8.toInt * 2 ^ 24 + b.toNat * 2 ^ 16 + c.toNat * 2 ^ 8 + d.toNat := by
  have spelled : Bytes.ofBigEndian [a, b, c, d] =
      a.toNat * 2 ^ 24 + b.toNat * 2 ^ 16 + c.toNat * 2 ^ 8 + d.toNat := by
    simp [Bytes.ofBigEndian]
    omega
  have ha := a.toNat_lt
  have hb := b.toNat_lt
  have hc := c.toNat_lt
  have hd := d.toNat_lt
  rw [toInt_toInt32, toInt_toInt8, UInt32.toNat_ofNat', spelled, Nat.mod_eq_of_lt (by omega),
    Int.bmod_def, Int.bmod_def]
  split <;> split <;> omega

theorem toNat_ofBigEndian (high low : UInt8) :
    (UInt16.ofNat (Bytes.ofBigEndian [high, low])).toNat = high.toNat * 256 + low.toNat := by
  have first := high.toNat_lt
  have second := low.toNat_lt
  have spelled : Bytes.ofBigEndian [high, low] = high.toNat * 256 + low.toNat := by
    simp [Bytes.ofBigEndian]
  rw [UInt16.toNat_ofNat', spelled, Nat.mod_eq_of_lt (by omega)]

theorem exists_four (width : raw.length = 4) : ∃ a b c d, raw = [a, b, c, d] := by
  match raw, width with
  | [a, b, c, d], _ => exact ⟨a, b, c, d, rfl⟩

theorem exists_two (width : 2 ≤ raw.length) : ∃ high low rest, raw = high :: low :: rest := by
  match raw, width with
  | high :: low :: rest, _ => exact ⟨high, low, rest, rfl⟩

theorem decode_four (a b c d : UInt8) :
    decode 0x21 [a, b, c, d] =
      .ok (.integer (UInt32.ofNat (Bytes.ofBigEndian [a, b, c, d])).toInt32) := rfl

theorem decode_one (b : UInt8) : decode 0x22 [b] = .ok (.boolean (b ≠ 0)) := by
  have spelled : ([b] != [0]) = decide (b ≠ 0) := by
    rw [Bool.eq_iff_iff]
    simp
  rw [← spelled]
  rfl

theorem decode_two (high low : UInt8) (rest : Bytes) :
    decode 0x23 (high :: low :: rest) =
      .ok (.enumeration (UInt16.ofNat (Bytes.ofBigEndian [high, low]))) := by
  have enough : 2 ≤ (high :: low :: rest).length := by simp
  simp only [decode, leading_eq_ok_iff.mpr ⟨enough, rfl⟩]
  rfl

/-- What is read under a tag is what the bytes mean under it. -/
theorem decode_eq_ok_iff {value : Value} : decode tag raw = .ok value ↔ Means tag raw value := by
  constructor
  · intro read
    rcases reading_cases tag with rfl | rfl | rfl | ⟨kind, known⟩ | ⟨kind, known⟩ | ⟨kind, known⟩ |
      other
    · obtain ⟨four, taken, -⟩ := map_eq_ok_iff.mp read
      obtain ⟨a, b, c, d, rfl⟩ := exists_four (exactly_eq_ok_iff.mp taken).1
      cases (decode_four a b c d).symm.trans read
      exact .integer (toInt_ofBigEndian a b c d)
    · obtain ⟨one, taken, -⟩ := map_eq_ok_iff.mp read
      obtain ⟨b, rfl⟩ := List.length_eq_one_iff.mp (exactly_eq_ok_iff.mp taken).1
      cases (decode_one b).symm.trans read
      exact .boolean b
    · obtain ⟨two, taken, -⟩ := map_eq_ok_iff.mp read
      obtain ⟨high, low, rest, rfl⟩ := exists_two (leading_eq_ok_iff.mp taken).1
      cases (decode_two high low rest).symm.trans read
      exact .enumeration (toNat_ofBigEndian high low) rest
    · cases (decode_of_raw known raw).symm.trans read
      exact .raw known raw
    · rw [decode_of_language known] at read
      obtain ⟨both, taken, rfl⟩ := map_eq_ok_iff.mp read
      obtain ⟨language, behind, text, rest, first, second, rfl⟩ := withLanguage_eq_ok_iff.mp taken
      exact .withLanguage known first second
    · cases (decode_of_text known raw).symm.trans read
      exact .text known raw
    · cases (decode_of_notMem other).symm.trans read
      exact .unknown other raw
  · intro means
    cases means with
    | @integer a b c d n signed =>
        have same : n = (UInt32.ofNat (Bytes.ofBigEndian [a, b, c, d])).toInt32 :=
          Int32.toInt_inj.mp (signed.trans (toInt_ofBigEndian a b c d).symm)
        rw [same, decode_four]
    | boolean b => exact decode_one b
    | @enumeration high low n number rest =>
        have same : n = UInt16.ofNat (Bytes.ofBigEndian [high, low]) :=
          UInt16.toNat_inj.mp (number.trans (toNat_ofBigEndian high low).symm)
        rw [same, decode_two]
    | raw known => exact decode_of_raw known raw
    | @withLanguage _ kind _ language behind text rest known first second =>
        have taken : withLanguage raw = .ok (lossy language, lossy text) :=
          withLanguage_eq_ok_iff.mpr ⟨language, behind, text, rest, first, second, rfl⟩
        rw [decode_of_language known, taken]
        rfl
    | text known => exact decode_of_text known raw
    | unknown other => exact decode_of_notMem other

/-- A value is refused for the cause that its bytes give. -/
theorem decode_eq_error_iff {cause : Malformed} :
    decode tag raw = .error cause ↔ Refused tag raw cause := by
  constructor
  · intro refused
    rcases reading_cases tag with rfl | rfl | rfl | ⟨kind, known⟩ | ⟨kind, known⟩ | ⟨kind, known⟩ |
      other
    · obtain ⟨width, rfl⟩ := exactly_eq_error_iff.mp (map_eq_error_iff.mp refused)
      exact .integer width
    · obtain ⟨width, rfl⟩ := exactly_eq_error_iff.mp (map_eq_error_iff.mp refused)
      exact .boolean width
    · obtain ⟨width, rfl⟩ := leading_eq_error_iff.mp (map_eq_error_iff.mp refused)
      exact .enumeration width
    · cases (decode_of_raw known raw).symm.trans refused
    · rw [decode_of_language known, map_eq_error_iff, withLanguage_eq_error_iff] at refused
      obtain ⟨cut, rfl⟩ | ⟨language, behind, first, cut, rfl⟩ := refused
      · exact .language known cut
      · exact .text known first cut
    · cases (decode_of_text known raw).symm.trans refused
    · cases (decode_of_notMem other).symm.trans refused
  · intro refused
    cases refused with
    | integer width | boolean width =>
        exact map_eq_error_iff.mpr (exactly_eq_error_iff.mpr ⟨width, rfl⟩)
    | enumeration width => exact map_eq_error_iff.mpr (leading_eq_error_iff.mpr ⟨width, rfl⟩)
    | language known cut =>
        rw [decode_of_language known, map_eq_error_iff, withLanguage_eq_error_iff]
        exact .inl ⟨cut, rfl⟩
    | text known first cut =>
        rw [decode_of_language known, map_eq_error_iff, withLanguage_eq_error_iff]
        exact .inr ⟨_, _, first, cut, rfl⟩

/-- Bytes are refused exactly for the length that their kind does not have. -/
theorem exists_refused_iff :
    (∃ cause, Refused tag raw cause) ↔
      tag = 0x21 ∧ raw.length ≠ 4 ∨ tag = 0x22 ∧ raw.length ≠ 1 ∨ tag = 0x23 ∧ raw.length < 2 ∨
        (tag = 0x34 ∨ tag = 0x35) ∧ ¬ ∃ language behind text rest,
          raw.Prefixed language behind ∧ behind.Prefixed text rest := by
  rw [← exists_mem_languageKinds_iff]
  constructor
  · rintro ⟨cause, refused⟩
    cases refused with
    | integer width => exact .inl ⟨rfl, width⟩
    | boolean width => exact .inr (.inl ⟨rfl, width⟩)
    | enumeration width => exact .inr (.inr (.inl ⟨rfl, width⟩))
    | language known cut =>
        refine .inr (.inr (.inr ⟨⟨_, known⟩, ?_⟩))
        rintro ⟨language, behind, -, -, first, -⟩
        exact cut language behind first
    | text known first cut =>
        refine .inr (.inr (.inr ⟨⟨_, known⟩, ?_⟩))
        rintro ⟨language, behind, text, rest, again, second⟩
        obtain ⟨rfl, rfl⟩ := first.unique again
        exact cut text rest second
  · rintro (⟨rfl, width⟩ | ⟨rfl, width⟩ | ⟨rfl, width⟩ | ⟨⟨kind, known⟩, cut⟩)
    · exact ⟨_, .integer width⟩
    · exact ⟨_, .boolean width⟩
    · exact ⟨_, .enumeration width⟩
    · by_cases first : ∃ language behind, raw.Prefixed language behind
      · obtain ⟨language, behind, first⟩ := first
        exact ⟨_, .text known first fun text rest second =>
          cut ⟨language, behind, text, rest, first, second⟩⟩
      · exact ⟨_, .language known fun language behind first' => first ⟨language, behind, first'⟩⟩

/-- Under a tag that allows bytes behind the value, it is read from the front alone. -/
theorem exists_front_of_decode {value : Value} (lenient : tag = 0x23 ∨ tag = 0x34 ∨ tag = 0x35)
    (read : decode tag raw = .ok value) :
    ∃ front rest, raw = front ++ rest ∧ ∀ more, decode tag (front ++ more) = .ok value := by
  rcases lenient with rfl | languageTag
  · obtain ⟨two, taken, -⟩ := map_eq_ok_iff.mp read
    obtain ⟨high, low, rest, rfl⟩ := exists_two (leading_eq_ok_iff.mp taken).1
    refine ⟨[high, low], rest, rfl, fun more => ?_⟩
    rw [← read, decode_two]
    exact decode_two high low more
  · obtain ⟨kind, known⟩ := exists_mem_languageKinds_iff.mpr languageTag
    rw [decode_of_language known] at read
    obtain ⟨both, taken, rfl⟩ := map_eq_ok_iff.mp read
    obtain ⟨language, behind, text, rest, first, second, rfl⟩ := withLanguage_eq_ok_iff.mp taken
    obtain ⟨front, rfl, reread⟩ := first.exists_front
    obtain ⟨inner, rfl, reread'⟩ := second.exists_front
    refine ⟨front ++ inner, rest, (List.append_assoc ..).symm, fun more => ?_⟩
    rw [List.append_assoc]
    exact decode_eq_ok_iff.mpr (.withLanguage known (reread (inner ++ more)) (reread' more))

/-- What becomes of the bytes of a value. Under every tag they are read as what they
mean, which is a value with this tag, or are refused for the cause that they give. They
are refused exactly if an integer has not four bytes, a boolean not one, an enumeration
fewer than two, or a text with its language not two fields. Under the tags that allow
bytes behind the value, only a front of the bytes is read: others may follow it, or stand
in the place of those that do. -/
theorem decode_exact (tag : UInt8) (raw : Bytes) :
    (∀ value, decode tag raw = .ok value ↔ Means tag raw value) ∧
    (∀ cause, decode tag raw = .error cause ↔ Refused tag raw cause) ∧
    ((∃ cause, decode tag raw = .error cause) ↔
      tag = 0x21 ∧ raw.length ≠ 4 ∨ tag = 0x22 ∧ raw.length ≠ 1 ∨ tag = 0x23 ∧ raw.length < 2 ∨
        (tag = 0x34 ∨ tag = 0x35) ∧ ¬ ∃ language behind text rest,
          raw.Prefixed language behind ∧ behind.Prefixed text rest) ∧
    (∀ value, decode tag raw = .ok value → value.tag = tag) ∧
    (∀ value, tag = 0x23 ∨ tag = 0x34 ∨ tag = 0x35 → decode tag raw = .ok value →
      (∀ more, decode tag (raw ++ more) = .ok value) ∧
      ∃ front rest, raw = front ++ rest ∧ ∀ more, decode tag (front ++ more) = .ok value) := by
  refine ⟨fun _ => decode_eq_ok_iff, fun _ => decode_eq_error_iff, ?_, fun _ => tag_of_decode, ?_⟩
  · simp only [decode_eq_error_iff]
    exact exists_refused_iff
  · intro value lenient read
    obtain ⟨front, rest, rfl, reread⟩ := exists_front_of_decode lenient read
    refine ⟨fun more => ?_, front, rest, rfl, reread⟩
    rw [List.append_assoc]
    exact reread (rest ++ more)

/-- The text is said to have one byte more than there are. -/
example : decode 0x35 [0x00, 0x01, 0x65, 0x00, 0x01] = .error (.truncatedLanguage .text) := by
  decide

end InternetPrinting.Value
