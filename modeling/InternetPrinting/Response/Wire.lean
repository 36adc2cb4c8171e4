import InternetPrinting.Response
import InternetPrinting.Value.Wire

/-!
# Responses on the wire

After a header of eight bytes come entries: a group marker with the name of
the group, or an attribute with its tag, name and value. A marker names the
group of the attributes behind it. The entries end with the message or with an
end tag, and whatever follows the end tag is the payload.
-/

namespace InternetPrinting

open Message (headerLength endTag groupTag header)
open Text (utf8 lossy)

/-- What is left to read and where it begins in the message. -/
structure Cursor where
  rest : Bytes
  offset : Nat

namespace Cursor

/-- The next `n` bytes, which belong to a part. -/
def take (part : Part) (n : Nat) (c : Cursor) : Except Malformed (Bytes × Cursor) :=
  if (c.rest.take n).length = n then
    .ok (c.rest.take n, ⟨c.rest.drop n, c.offset + n⟩)
  else .error (.truncated part n c.offset c.rest.length)

/-- The content of the field that comes next. -/
def field (part : Part) (c : Cursor) : Except Malformed (Bytes × Cursor) :=
  match c.take part 2 with
  | .error cause => .error cause
  | .ok (length, c) => c.take part (Bytes.ofBigEndian length)

theorem length_take_le {part : Part} {n : Nat} {c next : Cursor} {bytes : Bytes}
    (h : c.take part n = .ok (bytes, next)) : next.rest.length ≤ c.rest.length := by
  unfold take at h
  split at h
  · cases h
    simp
  · cases h

theorem length_field_le {part : Part} {c next : Cursor} {content : Bytes}
    (h : c.field part = .ok (content, next)) : next.rest.length ≤ c.rest.length := by
  unfold field at h
  split at h
  · cases h
  · next hit => exact Nat.le_trans (length_take_le h) (length_take_le hit)

end Cursor

/-- One entry of the attribute section. -/
inductive Entry
  | marker (group : String)
  | attribute (name : String) (value : Value)
deriving DecidableEq, Repr

namespace Entry

/-- The bytes of an entry, its tag first. -/
def bytes : Entry → Bytes
  | .marker group => groupTag :: Bytes.field (utf8 group)
  | .attribute name value =>
    value.tag :: (Bytes.field (utf8 name) ++ Bytes.field value.bytes)

/-- The entry behind a tag. -/
def read (tag : UInt8) (c : Cursor) : Except Malformed (Entry × Cursor) :=
  if tag = groupTag then
    match c.field .groupName with
    | .error cause => .error cause
    | .ok (group, c) => .ok (.marker (lossy group), c)
  else
    match c.field .attributeName with
    | .error cause => .error cause
    | .ok (name, c) =>
      match c.field .attributeValue with
      | .error cause => .error cause
      | .ok (raw, c) =>
        match Value.decode tag raw with
        | .error cause => .error cause
        | .ok value => .ok (.attribute (lossy name) value, c)

theorem length_read_le {tag : UInt8} {c next : Cursor} {entry : Entry}
    (h : read tag c = .ok (entry, next)) : next.rest.length ≤ c.rest.length := by
  unfold read at h
  split at h
  · split at h
    · cases h
    · next hit =>
      cases h
      exact Cursor.length_field_le hit
  · split at h
    · cases h
    · next first =>
      split at h
      · cases h
      · next second =>
        split at h
        · cases h
        · cases h
          exact Nat.le_trans (Cursor.length_field_le second) (Cursor.length_field_le first)

end Entry

/-- The groups built so far and the group that attributes go to. -/
structure Assembly where
  current : Option String := none
  groups : Groups := .empty

namespace Assembly

/-- Take in one entry. -/
def add (a : Assembly) : Entry → Assembly
  | .marker group => { a with current := some group }
  | .attribute name value => { a with groups := a.groups.store a.current name value }

/-- Take in the entries up to the end tag or the end of the message, and give
the bytes behind the end tag. -/
def readAll (a : Assembly) : Cursor → Except Malformed (Assembly × Bytes)
  | ⟨[], _⟩ => .ok (a, [])
  | ⟨tag :: rest, offset⟩ =>
    if tag = endTag then .ok (a, rest)
    else
      match _ : Entry.read tag ⟨rest, offset + 1⟩ with
      | .error cause => .error cause
      | .ok (entry, next) => readAll (a.add entry) next
termination_by c => c.rest.length
decreasing_by exact Nat.lt_succ_of_le (Entry.length_read_le (by assumption))

end Assembly

namespace Response

/-- A payload without bytes is none. -/
def payloadOf (bytes : Bytes) : Option Bytes :=
  if bytes.isEmpty then none else some bytes

/-- The response that a message spells. -/
def parse (data : Bytes) : Except Malformed Response :=
  match data with
  | major :: minor :: s₁ :: s₀ :: i₃ :: i₂ :: i₁ :: i₀ :: rest =>
    (Assembly.readAll {} ⟨rest, headerLength⟩).map fun result =>
      { major, minor
        status := UInt16.ofNat (Bytes.ofBigEndian [s₁, s₀])
        requestId := UInt32.ofNat (Bytes.ofBigEndian [i₃, i₂, i₁, i₀])
        groups := result.1.groups
        payload := payloadOf result.2 }
  | short => .error (.tooShort short.length)

/-- The entries of a group: its marker, if it has a name, and its attributes. -/
def groupEntries (row : Option String × Attributes) : List Entry :=
  (row.1.map Entry.marker).toList ++
    row.2.rows.map fun stored => .attribute stored.1 stored.2

/-- The entries of a response in order. -/
def entries (r : Response) : List Entry :=
  r.groups.rows.flatMap groupEntries

/-- The message that spells a response. -/
def bytes (r : Response) : Bytes :=
  header r.major r.minor r.status r.requestId ++ r.entries.flatMap Entry.bytes ++
    endTag :: r.payload.getD []

end Response

end InternetPrinting
