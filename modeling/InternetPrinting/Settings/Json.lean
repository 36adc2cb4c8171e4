import InternetPrinting.Json.Tree
import InternetPrinting.Settings

/-!
# Settings as JSON

Settings are written as an object with every field in a fixed order and
nothing between the tokens. They are read from an object, in which any field
may be missing, keys that are no field are passed over and no field may occur
twice, or from an array that gives the first fields in the fixed order. What
is not said holds as it does in the standard settings.
-/

namespace InternetPrinting.Settings

/-- The fields in the order in which they are written. -/
inductive Field
  | host
  | port
  | timeoutMs
  | username
  | password
  | requestingUserName
  | defaultJobName
  | sessionLogin
deriving DecidableEq, Repr

namespace Field

def all : List Field :=
  [.host, .port, .timeoutMs, .username, .password, .requestingUserName, .defaultJobName,
    .sessionLogin]

/-- The key of a field. -/
def name : Field → String
  | .host => "host"
  | .port => "port"
  | .timeoutMs => "timeout_ms"
  | .username => "username"
  | .password => "password"
  | .requestingUserName => "requesting_user_name"
  | .defaultJobName => "default_job_name"
  | .sessionLogin => "session_login"

/-- The field with a key. -/
def ofName? (key : String) : Option Field :=
  all.find? fun field => field.name = key

theorem ofName?_name (field : Field) : ofName? field.name = some field := by
  cases field <;> rfl

end Field

/-- A field with the value it is given. -/
inductive Assignment
  | host (text : String)
  | port (n : UInt16)
  | timeoutMs (n : UInt64)
  | username (text : Option String)
  | password (text : Option String)
  | requestingUserName (text : Option String)
  | defaultJobName (text : String)
  | sessionLogin (b : Bool)
deriving DecidableEq, Repr

namespace Assignment

def field : Assignment → Field
  | .host _ => .host
  | .port _ => .port
  | .timeoutMs _ => .timeoutMs
  | .username _ => .username
  | .password _ => .password
  | .requestingUserName _ => .requestingUserName
  | .defaultJobName _ => .defaultJobName
  | .sessionLogin _ => .sessionLogin

end Assignment

/-- Give a field its value. -/
def assign (s : Settings) : Assignment → Settings
  | .host text => { s with host := text }
  | .port n => { s with port := n }
  | .timeoutMs n => { s with timeoutMs := n }
  | .username text => { s with username := text }
  | .password text => { s with password := text }
  | .requestingUserName text => { s with requestingUserName := text }
  | .defaultJobName text => { s with defaultJobName := text }
  | .sessionLogin b => { s with sessionLogin := b }

/-- The text of a string whose surrogates are paired. -/
def text? : Json → Option String
  | .text content => content
  | _ => none

/-- A text, or the absence of one. -/
def optionalText? : Json → Option (Option String)
  | .null => some none
  | .text (some text) => some (some text)
  | _ => none

/-- A number below a bound that is written as digits alone. -/
def naturalBelow? (bound : Nat) : Json → Option Nat
  | .number (some n) => if n < bound then some n else none
  | _ => none

def bool? : Json → Option Bool
  | .bool b => some b
  | _ => none

/-- What a value says about a field, if it is of the kind the field needs. -/
def Assignment.read? (field : Field) (value : Json) : Option Assignment :=
  match field with
  | .host => (text? value).map .host
  | .port => (naturalBelow? 65536 value).map fun n => .port (UInt16.ofNat n)
  | .timeoutMs =>
    (naturalBelow? 18446744073709551616 value).map fun n => .timeoutMs (UInt64.ofNat n)
  | .username => (optionalText? value).map .username
  | .password => (optionalText? value).map .password
  | .requestingUserName => (optionalText? value).map .requestingUserName
  | .defaultJobName => (text? value).map .defaultJobName
  | .sessionLogin => (bool? value).map .sessionLogin

/-- What a member of an object says, which is nothing if its key is no field.
The key must be text even then. -/
def member? (member : Option String × Json) : Option (Option Assignment) :=
  match member.1 with
  | none => none
  | some key =>
    match Field.ofName? key with
    | none => some none
    | some field => (Assignment.read? field member.2).map some

/-- What a tree says about the fields, in its order. -/
def assignments? : Json → Option (List Assignment)
  | .object members => (members.mapM member?).map fun said => said.filterMap id
  | .array items =>
    if items.length ≤ Field.all.length then
      (Field.all.zip items).mapM fun pair => Assignment.read? pair.1 pair.2
    else none
  | _ => none

/-- The settings that a tree describes. -/
def ofJson? (tree : Json) : Option Settings :=
  match assignments? tree with
  | none => none
  | some said =>
    if (said.map Assignment.field).Nodup then some (said.foldl assign standard) else none

/-- The settings in a file of the given bytes, or in a file that is not there.
They are validated before they are handed out. -/
def load (file : Option Bytes) : Except Fault Settings :=
  match file with
  | none => .error (.unreadableFile .missing)
  | some bytes =>
    match Text.strict? bytes with
    | none => .error (.unreadableFile .notUtf8)
    | some text =>
      match (Json.parse? text.toList).bind ofJson? with
      | none => .error .malformedSettings
      | some settings => settings.validate.map fun _ => settings

/-- A character inside a string. Control characters and the two marks with a
meaning are escaped, in the short form where there is one. -/
def quotedChar (c : Char) : List Char :=
  if c = '"' then ['\\', '"']
  else if c = '\\' then ['\\', '\\']
  else if c = '\x08' then ['\\', 'b']
  else if c = '\x0c' then ['\\', 'f']
  else if c = '\n' then ['\\', 'n']
  else if c = '\r' then ['\\', 'r']
  else if c = '\t' then ['\\', 't']
  else if c.toNat < 0x20 then
    ['\\', 'u', '0', '0', Text.Hex.digit (c.toNat / 16), Text.Hex.digit (c.toNat % 16)]
  else [c]

/-- A text as a string of JSON. -/
def quoted (s : String) : List Char :=
  '"' :: (s.toList.flatMap quotedChar ++ ['"'])

def optionalQuoted : Option String → List Char
  | none => ['n', 'u', 'l', 'l']
  | some text => quoted text

/-- The value of a field as JSON. -/
def fieldText (s : Settings) : Field → List Char
  | .host => quoted s.host
  | .port => (toString s.port.toNat).toList
  | .timeoutMs => (toString s.timeoutMs.toNat).toList
  | .username => optionalQuoted s.username
  | .password => optionalQuoted s.password
  | .requestingUserName => optionalQuoted s.requestingUserName
  | .defaultJobName => quoted s.defaultJobName
  | .sessionLogin => (if s.sessionLogin then "true" else "false").toList

/-- A field with its key as a member of an object. -/
def memberText (s : Settings) (field : Field) : List Char :=
  quoted field.name ++ ':' :: fieldText s field

/-- The settings as JSON. -/
def json (s : Settings) : String :=
  String.ofList ('{' :: ([','].intercalate (Field.all.map (memberText s)) ++ ['}']))

/-- Settings that are handed out are valid. -/
theorem invalid?_of_load {file : Option Bytes} {s : Settings} (h : load file = .ok s) :
    s.invalid? = none := by
  unfold load at h
  split at h
  · cases h
  · split at h
    · cases h
    · split at h
      · cases h
      · next settings _ =>
        cases valid : settings.validate with
        | error fault => rw [valid] at h; cases h
        | ok _ =>
          rw [valid] at h
          cases h
          exact (validate_eq_ok_iff _).mp valid

end InternetPrinting.Settings
