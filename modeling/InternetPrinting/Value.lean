import InternetPrinting.Text.Hex

/-!
# Attribute values

The value of an attribute has one of sixteen kinds, told apart by a tag byte.
A value with any other tag is kept as it came.
-/

namespace InternetPrinting

/-- The value of an attribute. -/
inductive Value
  | integer (n : Int32)
  | boolean (b : Bool)
  | enumeration (n : UInt16)
  | octetString (raw : Bytes)
  | dateTime (raw : Bytes)
  | resolution (raw : Bytes)
  | rangeOfInteger (raw : Bytes)
  | textWithLanguage (language text : String)
  | nameWithLanguage (language text : String)
  | textWithoutLanguage (text : String)
  | nameWithoutLanguage (text : String)
  | keyword (text : String)
  | uri (text : String)
  | uriScheme (text : String)
  | charset (text : String)
  | naturalLanguage (text : String)
  | unknown (tag : UInt8) (raw : Bytes)
deriving DecidableEq, Repr

namespace Value

/-- The tag byte of a value. -/
def tag : Value → UInt8
  | .integer _ => 0x21
  | .boolean _ => 0x22
  | .enumeration _ => 0x23
  | .octetString _ => 0x30
  | .dateTime _ => 0x31
  | .resolution _ => 0x32
  | .rangeOfInteger _ => 0x33
  | .textWithLanguage .. => 0x34
  | .nameWithLanguage .. => 0x35
  | .textWithoutLanguage _ => 0x41
  | .nameWithoutLanguage _ => 0x42
  | .keyword _ => 0x44
  | .uri _ => 0x45
  | .uriScheme _ => 0x46
  | .charset _ => 0x47
  | .naturalLanguage _ => 0x48
  | .unknown tag _ => tag

/-- The tags of the sixteen kinds. -/
def knownTags : List UInt8 :=
  [0x21, 0x22, 0x23, 0x30, 0x31, 0x32, 0x33, 0x34, 0x35, 0x41, 0x42, 0x44, 0x45, 0x46,
    0x47, 0x48]

/-- The number of a value that is one. -/
def asInteger : Value → Option Int
  | .integer n => some n.toInt
  | .enumeration n => some n.toNat
  | _ => none

/-- The text of a value that has one, without its language. -/
def asText : Value → Option String
  | .textWithLanguage _ text | .nameWithLanguage _ text => some text
  | .textWithoutLanguage text | .nameWithoutLanguage text | .keyword text | .uri text
  | .uriScheme text | .charset text | .naturalLanguage text => some text
  | _ => none

def asBool : Value → Option Bool
  | .boolean b => some b
  | _ => none

/-- The form of a value for people: raw bytes in hexadecimal, a language in
brackets after its text. -/
def display : Value → String
  | .integer n => toString n.toInt
  | .boolean b => if b then "true" else "false"
  | .enumeration n => toString n.toNat
  | .octetString raw | .dateTime raw | .resolution raw | .rangeOfInteger raw
  | .unknown _ raw => Text.Hex.ofBytes raw
  | .textWithLanguage language text | .nameWithLanguage language text =>
    text ++ " [" ++ language ++ "]"
  | .textWithoutLanguage text | .nameWithoutLanguage text | .keyword text | .uri text
  | .uriScheme text | .charset text | .naturalLanguage text => text

end Value

end InternetPrinting
