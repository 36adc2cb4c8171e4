import InternetPrinting.Operation
import InternetPrinting.Table

/-!
# Requests

A request names an operation and carries attributes, each a name with any
number of values. Inserting under a name replaces the values of its first
entry; appending puts other entries behind without merging names.
-/

namespace InternetPrinting

/-- The attributes of a request in order. -/
abbrev RequestAttributes := Table String (List String)

namespace RequestAttributes

/-- Give a name a single value. -/
def insert (attributes : RequestAttributes) (name value : String) : RequestAttributes :=
  attributes.set name [value]

/-- Give a name several values, or none. -/
def insertMany (attributes : RequestAttributes) (name : String) (values : List String) :
    RequestAttributes :=
  attributes.set name values

/-- Insert the pairs of a list one after another. -/
def ofPairs (pairs : List (String × String)) : RequestAttributes :=
  pairs.foldl (fun attributes pair => insert attributes pair.1 pair.2) .empty

/-- Every value with its name, in order. -/
def pairs (attributes : RequestAttributes) : List (String × String) :=
  attributes.rows.flatMap fun row => row.2.map fun value => (row.1, value)

theorem pairs_append (a b : RequestAttributes) :
    pairs (a.append b) = pairs a ++ pairs b := by
  simp [pairs, Table.append]

end RequestAttributes

/-- An id drawn for a request: sixteen bits, never zero. -/
structure RequestId where
  value : UInt16
  value_ne_zero : value ≠ 0 := by decide

namespace RequestId

/-- The id as the header of a message holds it. -/
def toUInt32 (id : RequestId) : UInt32 :=
  id.value.toUInt32

end RequestId

/-- A request for the server. -/
structure Request where
  major : UInt8
  minor : UInt8
  operation : Operation
  id : UInt32
  attributes : RequestAttributes
  /-- The document, if one is sent. -/
  payload : Option Bytes
deriving DecidableEq, Repr

namespace Request

/-- A request of version 1.1 for the operation with a keyword. -/
def ofName (keyword : String) (id : RequestId) (attributes : RequestAttributes)
    (payload : Option Bytes) : Except Fault Request :=
  match Operation.ofName keyword with
  | .error fault => .error fault
  | .ok operation => .ok ⟨1, 1, operation, id.toUInt32, attributes, payload⟩

end Request

end InternetPrinting
