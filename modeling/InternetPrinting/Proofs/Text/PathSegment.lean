import InternetPrinting.Text.Percent

/-!
# Path segments read back

A text that is written as one segment of a path consists of unreserved
characters and percent triplets. So nothing in it ends the segment or the path,
and decoding gives back the bytes of the text.
-/

namespace InternetPrinting.Text.Percent

/-- A character of an encoded segment: an unreserved one, or one of a triplet. -/
def isSegmentChar (c : Char) : Bool :=
  c.isAlphanum || c == '-' || c == '_' || c == '.' || c == '~' || c == '%'

/-- What holds of the texts of all bytes holds of the characters in a segment. -/
theorem of_mem_segmentByte {p : Char → Bool}
    (all : ∀ n : Fin 256, (segmentByte (UInt8.ofNat n)).all p = true) {b : UInt8} {c : Char}
    (h : c ∈ segmentByte b) : p c = true := by
  have here := all ⟨b.toNat, b.toNat_lt⟩
  simp only [UInt8.ofNat_toNat] at here
  exact List.all_eq_true.mp here c h

theorem isSegmentChar_of_mem_segmentByte {b : UInt8} {c : Char} (h : c ∈ segmentByte b) :
    isSegmentChar c = true := by
  apply of_mem_segmentByte _ h
  decide +kernel

theorem exists_mem_segmentByte {s : String} {c : Char} (h : c ∈ (pathSegment s).toList) :
    ∃ b, c ∈ segmentByte b := by
  rw [pathSegment, String.toList_ofList] at h
  obtain ⟨b, -, inByte⟩ := List.mem_flatMap.mp h
  exact ⟨b, inByte⟩

theorem isSegmentChar_of_mem_pathSegment {s : String} {c : Char}
    (h : c ∈ (pathSegment s).toList) : isSegmentChar c = true := by
  obtain ⟨b, inByte⟩ := exists_mem_segmentByte h
  exact isSegmentChar_of_mem_segmentByte inByte

theorem toNat_of_mem_pathSegment {s : String} {c : Char} (h : c ∈ (pathSegment s).toList) :
    0x20 < c.toNat ∧ c.toNat < 0x7F := by
  obtain ⟨b, inByte⟩ := exists_mem_segmentByte h
  have all : ∀ n : Fin 256, (segmentByte (UInt8.ofNat n)).all
      (fun c => decide (0x20 < c.toNat ∧ c.toNat < 0x7F)) = true := by
    decide +kernel
  exact of_decide_eq_true (of_mem_segmentByte all inByte)

/-- A character that stands for itself in a segment. -/
def isUnreservedChar (c : Char) : Bool :=
  c.isAlphanum || c == '-' || c == '_' || c == '.' || c == '~'

/-- An upper-case hexadecimal digit. -/
def isUpperHex (c : Char) : Bool :=
  ('0' ≤ c && c ≤ '9') || ('A' ≤ c && c ≤ 'F')

/-- Texts made of unreserved characters and upper-case triplets. -/
inductive Segment : List Char → Prop
  | nil : Segment []
  | plain {c : Char} {rest : List Char} (unreserved : isUnreservedChar c = true)
      (behind : Segment rest) : Segment (c :: rest)
  | triplet {high low : Char} {rest : List Char} (upper : isUpperHex high = true)
      (lower : isUpperHex low = true) (behind : Segment rest) :
      Segment ('%' :: high :: low :: rest)

theorem isUpperHex_upperDigit {n : Nat} (h : n < 16) : isUpperHex (Hex.upperDigit n) = true := by
  have all : ∀ m : Fin 16, isUpperHex (Hex.upperDigit m) = true := by decide
  exact all ⟨n, h⟩

theorem Segment.segmentByte_append {rest : List Char} (behind : Segment rest) (b : UInt8) :
    Segment (segmentByte b ++ rest) := by
  unfold segmentByte
  split
  · next unreserved =>
    have all : ∀ n : Fin 256, isUnreserved (UInt8.ofNat n) = true →
        isUnreservedChar (Char.ofNat n) = true := by
      decide +kernel
    exact .plain (all ⟨b.toNat, b.toNat_lt⟩ (by simpa using unreserved)) behind
  · have small := b.toNat_lt
    exact .triplet (isUpperHex_upperDigit (by omega)) (isUpperHex_upperDigit (by omega)) behind

/-- A text is written as a segment. -/
theorem segment_pathSegment (s : String) : Segment (pathSegment s).toList := by
  rw [pathSegment, String.toList_ofList]
  induction utf8 s with
  | nil => exact .nil
  | cons b rest ih => exact ih.segmentByte_append b

/-- Nothing in a segment ends it, or the path. -/
theorem ne_of_mem_pathSegment {s : String} {c : Char} (h : c ∈ (pathSegment s).toList) :
    c ≠ '/' ∧ c ≠ '?' ∧ c ≠ '#' := by
  have kept := isSegmentChar_of_mem_pathSegment h
  refine ⟨?_, ?_, ?_⟩ <;>
  · rintro rfl
    revert kept
    decide

/-- The bytes of a segment are visible characters of ASCII that do not end it,
or the path. -/
theorem of_mem_utf8_pathSegment {s : String} {b : UInt8} (h : b ∈ utf8 (pathSegment s)) :
    (0x20 < b ∧ b < 0x7F) ∧ b ≠ 0x2F ∧ b ≠ 0x3F ∧ b ≠ 0x23 := by
  obtain ⟨c, member, inChar⟩ := List.mem_flatMap.mp h
  obtain ⟨above, below⟩ := toNat_of_mem_pathSegment member
  obtain ⟨slash, query, fragment⟩ := ne_of_mem_pathSegment member
  rw [utf8EncodeChar_of_ascii (by omega), List.mem_singleton] at inChar
  have code : b.toNat = c.toNat := by
    rw [inChar, UInt8.toNat_ofNat']
    omega
  simp only [ne_eq, ← Char.toNat_inj, Char.reduceToNat] at slash query fragment
  simp only [UInt8.lt_iff_toNat_lt, ne_eq, ← UInt8.toNat_inj, code, UInt8.reduceToNat]
  omega

/-- A character that is written as it stands is decoded as it stands. -/
theorem decode?_cons {c : Char} (plain : c ≠ '%') (ascii : c.toNat < 128) (rest : List Char) :
    decode? (c :: rest) = (decode? rest).map (UInt8.ofNat c.toNat :: ·) := by
  have allowed : ¬(c = '%' ∨ 128 ≤ c.toNat) := by
    rintro (percent | beyond)
    · exact plain percent
    · exact absurd ascii (Nat.not_lt.mpr beyond)
  rw [decode?]
  · rw [if_neg allowed]
  · intro high low behind percent
    exact absurd percent plain

theorem decode?_triplet_append (b : UInt8) (rest : List Char) :
    decode? (triplet b ++ rest) = (decode? rest).map (b :: ·) := by
  have small := b.toNat_lt
  have high : b.toNat / 16 < 16 := by omega
  have low : b.toNat % 16 < 16 := by omega
  have whole : b.toNat / 16 * 16 + b.toNat % 16 = b.toNat := by omega
  simp only [triplet, List.cons_append, List.nil_append, decode?, Hex.value?_upperDigit high,
    Hex.value?_upperDigit low, Option.bind_eq_bind, Option.bind_some, whole, UInt8.ofNat_toNat]
  cases decode? rest <;> rfl

/-- Each byte is decoded from the front of what is written for it and more. -/
theorem decode?_segmentByte_append (b : UInt8) (rest : List Char) :
    decode? (segmentByte b ++ rest) = (decode? rest).map (b :: ·) := by
  unfold segmentByte
  split
  · next unreserved =>
    have all : ∀ n : Fin 256, isUnreserved (UInt8.ofNat n) = true →
        Char.ofNat n ≠ '%' ∧ (Char.ofNat n).toNat < 128 ∧ (Char.ofNat n).toNat = n := by
      decide +kernel
    obtain ⟨plain, ascii, code⟩ := all ⟨b.toNat, b.toNat_lt⟩ (by simpa using unreserved)
    rw [List.singleton_append, decode?_cons plain ascii, code, UInt8.ofNat_toNat]
  · exact decode?_triplet_append b rest

theorem decode?_flatMap_segmentByte (bytes : Bytes) :
    decode? (bytes.flatMap segmentByte) = some bytes := by
  induction bytes with
  | nil => rfl
  | cons b rest ih => rw [List.flatMap_cons, decode?_segmentByte_append, ih, Option.map_some]

/-- A segment tells the bytes of its text. -/
theorem decode?_pathSegment (s : String) : decode? (pathSegment s).toList = some (utf8 s) := by
  rw [pathSegment, String.toList_ofList, decode?_flatMap_segmentByte]

end InternetPrinting.Text.Percent
