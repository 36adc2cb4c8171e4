import InternetPrinting.Fault
import InternetPrinting.Value

/-!
# Attribute values on the wire

The kind of a value follows from its tag alone. An integer and a boolean have
a fixed width, an enumeration at least two bytes of which the first two count,
and a text with its language is two fields with anything behind them ignored.
Texts are read leniently. Any other tag keeps its bytes.
-/

namespace InternetPrinting.Value

open Text (utf8 lossy)

/-- The bytes of a value. -/
def bytes : Value → Bytes
  | .integer n => Bytes.bigEndian 4 n.toUInt32.toNat
  | .boolean b => [if b then 1 else 0]
  | .enumeration n => Bytes.bigEndian 2 n.toNat
  | .octetString raw | .dateTime raw | .resolution raw | .rangeOfInteger raw
  | .unknown _ raw => raw
  | .textWithLanguage language text | .nameWithLanguage language text =>
    Bytes.field (utf8 language) ++ Bytes.field (utf8 text)
  | .textWithoutLanguage text | .nameWithoutLanguage text | .keyword text | .uri text
  | .uriScheme text | .charset text | .naturalLanguage text => utf8 text

/-- The bytes of a value whose width is fixed. -/
def exactly (tag : UInt8) (width : Nat) (raw : Bytes) : Except Malformed Bytes :=
  if raw.length = width then .ok raw
  else .error (.wrongWidth tag width raw.length)

/-- The first bytes of a value that has at least so many. -/
def leading (tag : UInt8) (width : Nat) (raw : Bytes) : Except Malformed Bytes :=
  if width ≤ raw.length then .ok (raw.take width)
  else .error (.wrongWidth tag width raw.length)

/-- The language and the text of a value that has both. -/
def withLanguage (raw : Bytes) : Except Malformed (String × String) :=
  match Bytes.field? raw with
  | none => .error (.truncatedLanguage .language)
  | some (language, rest) =>
    match Bytes.field? rest with
    | none => .error (.truncatedLanguage .text)
    | some (text, _) => .ok (lossy language, lossy text)

/-- The value with a tag and its bytes. -/
def decode (tag : UInt8) (raw : Bytes) : Except Malformed Value :=
  match tag with
  | 0x21 => (exactly tag 4 raw).map fun four =>
    .integer (UInt32.ofNat (Bytes.ofBigEndian four)).toInt32
  | 0x22 => (exactly tag 1 raw).map fun one => .boolean (one != [0])
  | 0x23 => (leading tag 2 raw).map fun two => .enumeration (UInt16.ofNat (Bytes.ofBigEndian two))
  | 0x30 => .ok (.octetString raw)
  | 0x31 => .ok (.dateTime raw)
  | 0x32 => .ok (.resolution raw)
  | 0x33 => .ok (.rangeOfInteger raw)
  | 0x34 => (withLanguage raw).map fun both => .textWithLanguage both.1 both.2
  | 0x35 => (withLanguage raw).map fun both => .nameWithLanguage both.1 both.2
  | 0x41 => .ok (.textWithoutLanguage (lossy raw))
  | 0x42 => .ok (.nameWithoutLanguage (lossy raw))
  | 0x44 => .ok (.keyword (lossy raw))
  | 0x45 => .ok (.uri (lossy raw))
  | 0x46 => .ok (.uriScheme (lossy raw))
  | 0x47 => .ok (.charset (lossy raw))
  | 0x48 => .ok (.naturalLanguage (lossy raw))
  | _ => .ok (.unknown tag raw)

end InternetPrinting.Value
