import InternetPrinting.Table
import InternetPrinting.Value

/-!
# Responses

A response holds groups of attributes. A group is known by its name, or has
none when its attributes came before any group was named. Groups stand in the
order in which they were first used, and so do the attributes of a group; an
attribute that is stored again takes the new value where it stands.
-/

namespace InternetPrinting

/-- The values of a group by attribute name. -/
abbrev Attributes := Table String Value

/-- Groups by name. -/
abbrev Groups := Table (Option String) Attributes

namespace Groups

/-- The groups with one of the given name among them. -/
def touch (groups : Groups) (group : Option String) : Groups :=
  groups.alter group fun attributes => attributes.getD .empty

/-- Store a value under a group and a name. -/
def store (groups : Groups) (group : Option String) (name : String) (value : Value) : Groups :=
  groups.alter group fun attributes => (attributes.getD .empty).set name value

/-- The first value of a name, in the order of the groups. -/
def find? (groups : Groups) (name : String) : Option Value :=
  groups.rows.findSome? fun row => row.2.get? name

/-- Storing changes the one value and no other. -/
theorem get?_store (groups : Groups) (group other : Option String) (name : String)
    (value : Value) :
    (groups.store group name value).get? other =
      if other = group then some (((groups.get? group).getD .empty).set name value)
      else groups.get? other :=
  Table.get?_alter groups group other _

/-- A group is added at the end by its first use and stays where it is. -/
theorem keys_store (groups : Groups) (group : Option String) (name : String) (value : Value) :
    (groups.store group name value).keys =
      if group ∈ groups.keys then groups.keys else groups.keys ++ [group] := by
  by_cases used : group ∈ groups.keys <;> simp [store, Table.keys_alter, used]

theorem keys_touch (groups : Groups) (group : Option String) :
    (groups.touch group).keys =
      if group ∈ groups.keys then groups.keys else groups.keys ++ [group] := by
  by_cases used : group ∈ groups.keys <;> simp [touch, Table.keys_alter, used]

end Groups

/-- An answer of the server. -/
structure Response where
  major : UInt8
  minor : UInt8
  status : UInt16
  requestId : UInt32
  groups : Groups
  /-- The bytes after the attributes, if there are any. -/
  payload : Option Bytes
deriving DecidableEq, Repr

namespace Response

/-- Whether the status is one of the successful ones. -/
def isSuccessful (r : Response) : Bool :=
  r.status < 0x0100

/-- The attributes of a named group. -/
def group? (r : Response) (name : String) : Option Attributes :=
  r.groups.get? (some name)

/-- The attributes that came before any group was named. -/
def ungrouped? (r : Response) : Option Attributes :=
  r.groups.get? none

/-- The first value of a name, in the order of the groups. -/
def find? (r : Response) (name : String) : Option Value :=
  r.groups.find? name

end Response

end InternetPrinting
