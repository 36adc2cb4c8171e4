import InternetPrinting.Bytes

/-!
# Text as UTF-8

Writing is character by character. Reading follows one byte at a time a
character that may be unfinished, and yields one item for each character and
one for each longest run of bytes that starts a character but cannot be
continued. A lenient reader puts the replacement character for such a run; a
strict one refuses the text.
-/

namespace InternetPrinting.Text

/-- The UTF-8 bytes of a text. -/
def utf8 (s : String) : Bytes :=
  s.toList.flatMap String.utf8EncodeChar

/-- A character whose first bytes have been read: the bits so far, how many
bytes are missing, and the range of the next one. -/
structure Unfinished where
  code : Nat
  missing : Nat
  low : UInt8
  high : UInt8

/-- What a byte means where a character may begin. -/
inductive Lead
  | whole (c : Char)
  | opens (u : Unfinished)
  | invalid

/-- The ranges after `0xE0`, `0xED`, `0xF0` and `0xF4` leave out overlong
forms, surrogates and code points beyond the last one. -/
def lead (b : UInt8) : Lead :=
  if b < 0x80 then .whole (Char.ofNat b.toNat)
  else if b < 0xC2 then .invalid
  else if b < 0xE0 then .opens ⟨b.toNat - 0xC0, 1, 0x80, 0xBF⟩
  else if b < 0xF0 then
    .opens ⟨b.toNat - 0xE0, 2, if b = 0xE0 then 0xA0 else 0x80, if b = 0xED then 0x9F else 0xBF⟩
  else if b < 0xF5 then
    .opens ⟨b.toNat - 0xF0, 3, if b = 0xF0 then 0x90 else 0x80, if b = 0xF4 then 0x8F else 0xBF⟩
  else .invalid

/-- What has been read: the items, latest first, and a character in progress.
An item is a character, or nothing for bytes that are not text. -/
structure Reader where
  items : List (Option Char) := []
  pending : Option Unfinished := none

/-- Read a byte where a character may begin. -/
def Reader.start (items : List (Option Char)) (b : UInt8) : Reader :=
  match lead b with
  | .whole c => ⟨some c :: items, none⟩
  | .opens u => ⟨items, some u⟩
  | .invalid => ⟨none :: items, none⟩

/-- Read one byte. A byte that cannot continue the character in progress ends
it as invalid and is then read as the start of another. -/
def Reader.step (r : Reader) (b : UInt8) : Reader :=
  match r.pending with
  | none => start r.items b
  | some u =>
    if u.low ≤ b ∧ b ≤ u.high then
      let code := u.code * 64 + (b.toNat - 0x80)
      if u.missing = 1 then ⟨some (Char.ofNat code) :: r.items, none⟩
      else ⟨r.items, some ⟨code, u.missing - 1, 0x80, 0xBF⟩⟩
    else start (none :: r.items) b

/-- The items in order. A character still in progress is invalid. -/
def Reader.finish (r : Reader) : List (Option Char) :=
  match r.pending with
  | none => r.items.reverse
  | some _ => (none :: r.items).reverse

/-- The characters of a byte string, with `none` for each invalid run. -/
def characters (bytes : Bytes) : List (Option Char) :=
  (bytes.foldl Reader.step {}).finish

/-- The text of a byte string, with U+FFFD for each invalid run. -/
def lossy (bytes : Bytes) : String :=
  String.ofList ((characters bytes).map fun c => c.getD '\uFFFD')

/-- The text of a byte string that is UTF-8 throughout. -/
def strict? (bytes : Bytes) : Option String :=
  ((characters bytes).mapM id).map String.ofList

@[simp] theorem utf8_append (s t : String) : utf8 (s ++ t) = utf8 s ++ utf8 t := by
  simp [utf8]

/-- A character of ASCII is one byte. -/
theorem utf8EncodeChar_of_ascii {c : Char} (ascii : c.toNat < 128) :
    String.utf8EncodeChar c = [UInt8.ofNat c.toNat] := by
  have small : c.toNat ≤ 127 := Nat.lt_succ_iff.mp ascii
  simp [String.utf8EncodeChar, small]

/-- The bytes are those that a string is made of. -/
theorem toByteArray_utf8 (s : String) : (utf8 s).toByteArray = s.toByteArray := by
  rw [← String.utf8Encode_toList, List.utf8Encode, utf8]

theorem length_utf8 (s : String) : (utf8 s).length = s.utf8ByteSize := by
  rw [← String.size_toByteArray, ← toByteArray_utf8, List.size_toByteArray]

end InternetPrinting.Text
