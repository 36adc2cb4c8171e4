import InternetPrinting.Bytes

/-!
# Messages

The layout that requests and responses share. A message begins with a header:
two version bytes, a code that names the operation or the status, and the
request id. Attributes follow up to an end tag, and then the payload.
-/

namespace InternetPrinting.Message

/-- The length of the header. -/
def headerLength : Nat := 8

/-- The header of a message. -/
def header (major minor : UInt8) (code : UInt16) (requestId : UInt32) : Bytes :=
  major :: minor :: (Bytes.bigEndian 2 code.toNat ++ Bytes.bigEndian 4 requestId.toNat)

/-- The tag that ends the attributes. -/
def endTag : UInt8 := 0x03

/-- The tag of a group marker. -/
def groupTag : UInt8 := 0x04

/-- The longest name or value that a field can hold. -/
def fieldLimit : Nat := 65535

@[simp] theorem length_header (major minor : UInt8) (code : UInt16) (requestId : UInt32) :
    (header major minor code requestId).length = 8 := by
  simp [header]

end InternetPrinting.Message
