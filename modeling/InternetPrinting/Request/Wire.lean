import InternetPrinting.Message
import InternetPrinting.Request

/-!
# Requests on the wire

Every value is written as an attribute of its own with the full name and one
fixed tag, which servers accept for all kinds. A request is refused if a name
or a value is longer than a field can be; nothing is ever cut to fit.
-/

namespace InternetPrinting

open Message (header endTag fieldLimit)
open Text (utf8)

namespace RequestAttributes

/-- The tag of every attribute of a request, that of a charset. -/
def valueTag : UInt8 := 0x47

/-- The bytes of one value under its name. -/
def pairBytes (pair : String × String) : Bytes :=
  valueTag :: (Bytes.field (utf8 pair.1) ++ Bytes.field (utf8 pair.2))

/-- The bytes of the attributes in order. -/
def bytes (attributes : RequestAttributes) : Bytes :=
  (pairs attributes).flatMap pairBytes

/-- The length of the longest field of an entry, in bytes. -/
def longest (row : String × List String) : Nat :=
  (row.2.map fun value => (utf8 value).length).foldl max (utf8 row.1).length

/-- The fault of the first entry with a name or a value that is too long. -/
def tooLong? (attributes : RequestAttributes) : Option Fault :=
  (attributes.rows.find? fun row => fieldLimit < longest row).map fun row =>
    .attributeTooLong row.1 (longest row)

theorem bytes_append (a b : RequestAttributes) : bytes (a.append b) = bytes a ++ bytes b := by
  simp [bytes, pairs_append]

end RequestAttributes

namespace Request

/-- The message that spells a request with fields of any length. -/
def bytes (r : Request) : Bytes :=
  header r.major r.minor r.operation.code r.id ++ RequestAttributes.bytes r.attributes ++
    endTag :: r.payload.getD []

/-- The message that spells a request, if its fields are short enough. -/
def encode (r : Request) : Except Fault Bytes :=
  match RequestAttributes.tooLong? r.attributes with
  | some fault => .error fault
  | none => .ok r.bytes

/-- The message for the operation with a keyword. The keyword is looked up
before the fields are measured. -/
def build (keyword : String) (id : RequestId) (attributes : RequestAttributes)
    (payload : Option Bytes) : Except Fault Bytes :=
  match ofName keyword id attributes payload with
  | .error fault => .error fault
  | .ok request => request.encode

theorem encode_eq_ok_iff {r : Request} {message : Bytes} :
    r.encode = .ok message ↔
      RequestAttributes.tooLong? r.attributes = none ∧ message = r.bytes := by
  unfold encode
  split
  · next h => simp [h]
  · next h => simp [h, eq_comm]

end Request

end InternetPrinting
