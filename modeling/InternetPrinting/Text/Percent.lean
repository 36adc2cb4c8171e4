import InternetPrinting.Text.Hex
import InternetPrinting.Text.Split
import InternetPrinting.Text.Utf8

/-!
# Percent encoding

A byte outside the unreserved set is written as a percent sign and two
upper-case hexadecimal digits. A path segment writes every such byte that way;
a form writes a space as a plus sign, joins a key and its value by an equals
sign and the fields by ampersands. The readers undo both.
-/

namespace InternetPrinting.Text.Percent

/-- Letters and digits of ASCII and the four marks that never need encoding. -/
def isUnreserved (b : UInt8) : Bool :=
  (0x30 ≤ b && b ≤ 0x39) || (0x41 ≤ b && b ≤ 0x5A) || (0x61 ≤ b && b ≤ 0x7A) ||
    b == 0x2D || b == 0x5F || b == 0x2E || b == 0x7E

/-- A percent sign and the two digits of a byte. -/
def triplet (b : UInt8) : List Char :=
  ['%', Hex.upperDigit (b.toNat / 16), Hex.upperDigit (b.toNat % 16)]

/-- A byte of a path segment. -/
def segmentByte (b : UInt8) : List Char :=
  if isUnreserved b then [Char.ofNat b.toNat] else triplet b

/-- A byte of a key or a value of a form. -/
def formByte (b : UInt8) : List Char :=
  if b = 0x20 then ['+'] else segmentByte b

/-- A text as one segment of a path. -/
def pathSegment (s : String) : String :=
  String.ofList ((utf8 s).flatMap segmentByte)

/-- A text as a key or a value of a form. -/
def formText (s : String) : List Char :=
  (utf8 s).flatMap formByte

/-- One field of a form. -/
def formField (keyValue : String × String) : List Char :=
  formText keyValue.1 ++ '=' :: formText keyValue.2

/-- The body of a form with the given keys and values. -/
def formBody (fields : List (String × String)) : String :=
  String.ofList (['&'].intercalate (fields.map formField))

/-- The bytes behind percent triplets. Other ASCII characters stand for
themselves, and anything else is refused. -/
def decode? : List Char → Option Bytes
  | [] => some []
  | '%' :: high :: low :: rest => do
    let n := (← Hex.value? high) * 16 + (← Hex.value? low)
    pure (UInt8.ofNat n :: (← decode? rest))
  | c :: rest =>
    if c = '%' ∨ 128 ≤ c.toNat then none
    else (decode? rest).map (UInt8.ofNat c.toNat :: ·)

/-- The bytes behind a key or a value of a form: a plus sign is a space. -/
def formDecode? (cs : List Char) : Option Bytes :=
  decode? (cs.map fun c => if c = '+' then ' ' else c)

/-- The key and the value of one field, parted at the first equals sign. -/
def formField? (cs : List Char) : Option (Bytes × Bytes) := do
  let key ← formDecode? (before '=' cs)
  let value ← formDecode? (behind '=' cs)
  pure (key, value)

/-- The keys and values of a form in order. -/
def formFields? (cs : List Char) : Option (List (Bytes × Bytes)) :=
  (parts '&' cs).mapM formField?

end InternetPrinting.Text.Percent
