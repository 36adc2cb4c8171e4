import InternetPrinting.Text.Utf8

/-!
# Header fields

Names are told apart without regard to case, so a name is kept in lower case.
A name may occur several times; the values of one name have an order, and
inserting replaces them all by one.
-/

namespace InternetPrinting.Http

/-- The name of a header field, in lower case. -/
structure HeaderName where
  lower : String
deriving DecidableEq, Repr

namespace HeaderName

/-- The name that is written in any case. -/
def ofText (name : String) : HeaderName :=
  ⟨String.ofList (name.toList.map Char.toLower)⟩

def accept : HeaderName := ⟨"accept"⟩
def authorization : HeaderName := ⟨"authorization"⟩
def connection : HeaderName := ⟨"connection"⟩
def contentLength : HeaderName := ⟨"content-length"⟩
def contentType : HeaderName := ⟨"content-type"⟩
def cookie : HeaderName := ⟨"cookie"⟩
def host : HeaderName := ⟨"host"⟩
def setCookie : HeaderName := ⟨"set-cookie"⟩

end HeaderName

/-- A byte that a field value may hold. -/
def isValueByte (b : UInt8) : Bool :=
  b == 0x09 || (0x20 ≤ b && b != 0x7F)

/-- A byte of a field value that can be shown as text. -/
def isVisibleByte (b : UInt8) : Bool :=
  b == 0x09 || (0x20 ≤ b && b < 0x7F)

/-- The field value for a text, if it is allowed as one. -/
def fieldValue? (s : String) : Option Bytes :=
  if (Text.utf8 s).all isValueByte then some (Text.utf8 s) else none

/-- The characters of a field value that can be shown as text. -/
def visibleText? (value : Bytes) : Option (List Char) :=
  if value.all isVisibleByte then some (value.map fun b => Char.ofNat b.toNat) else none

/-- Header fields in order. -/
structure Headers where
  fields : List (HeaderName × Bytes) := []
deriving DecidableEq, Repr

namespace Headers

def empty : Headers := {}

/-- Add a value behind those that the name has. -/
def append (h : Headers) (name : HeaderName) (value : Bytes) : Headers :=
  ⟨h.fields ++ [(name, value)]⟩

/-- Remove every value of a name. -/
def erase (h : Headers) (name : HeaderName) : Headers :=
  ⟨h.fields.filter fun field => field.1 ≠ name⟩

/-- Replace every value of a name by one. -/
def insert (h : Headers) (name : HeaderName) (value : Bytes) : Headers :=
  (h.erase name).append name value

/-- Replace every value of a name by a text, if that is allowed as a value. -/
def insertText (h : Headers) (name : HeaderName) (text : String) : Headers :=
  match fieldValue? text with
  | some value => h.insert name value
  | none => h

/-- The values of a name in order. -/
def values (h : Headers) (name : HeaderName) : List Bytes :=
  (h.fields.filter fun field => field.1 = name).map (·.2)

@[simp] theorem values_empty (name : HeaderName) : empty.values name = [] := rfl

theorem values_append (h : Headers) (name other : HeaderName) (value : Bytes) :
    (h.append name value).values other =
      h.values other ++ if name = other then [value] else [] := by
  by_cases same : name = other <;> simp [values, append, same]

theorem values_erase (h : Headers) (name other : HeaderName) :
    (h.erase name).values other = if name = other then [] else h.values other := by
  by_cases same : name = other
  · subst same
    simp [values, erase]
  · simp only [values, erase, List.filter_filter, if_neg same]
    congr 1
    apply List.filter_congr
    intro field _
    by_cases hit : field.1 = other
    · simp [hit, Ne.symm same]
    · simp [hit]

theorem values_insert (h : Headers) (name other : HeaderName) (value : Bytes) :
    (h.insert name value).values other = if name = other then [value] else h.values other := by
  by_cases same : name = other <;> simp [insert, values_append, values_erase, same]

end Headers

end InternetPrinting.Http
