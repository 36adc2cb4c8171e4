import InternetPrinting.Proofs.Json.Building
import InternetPrinting.Text.Utf8.RoundTrip

/-!
# Settings that are written and loaded

What is written for settings is an object with a member for each field. From the value
of a member its field is read back as it was, so the object describes the settings. A
file with the text is loaded if they are valid, and is refused for the same reason
as they are otherwise.
-/

namespace InternetPrinting.Settings

open Json (Scans ScansInside Writes WritesMember)

variable (s : Settings)

section Trees

/-- The value of a text that may be absent. -/
def optionalTree : Option String → Json
  | none => .null
  | some text => .text (some text)

/-- The value of a field as a tree. -/
def fieldTree : Field → Json
  | .host => .text (some s.host)
  | .port => .number (some s.port.toNat)
  | .timeoutMs => .number (some s.timeoutMs.toNat)
  | .username => optionalTree s.username
  | .password => optionalTree s.password
  | .requestingUserName => optionalTree s.requestingUserName
  | .defaultJobName => .text (some s.defaultJobName)
  | .sessionLogin => .bool s.sessionLogin

/-- A field with the value that the settings have for it. -/
def assignment : Field → Assignment
  | .host => .host s.host
  | .port => .port s.port
  | .timeoutMs => .timeoutMs s.timeoutMs
  | .username => .username s.username
  | .password => .password s.password
  | .requestingUserName => .requestingUserName s.requestingUserName
  | .defaultJobName => .defaultJobName s.defaultJobName
  | .sessionLogin => .sessionLogin s.sessionLogin

/-- A field as a member of an object. -/
def memberTree (field : Field) : Option String × Json :=
  (some field.name, s.fieldTree field)

theorem optionalText?_optionalTree (text : Option String) :
    optionalText? (optionalTree text) = some text := by
  cases text <;> rfl

/-- Each field is read back from its tree. -/
theorem read?_fieldTree (field : Field) :
    Assignment.read? field (s.fieldTree field) = some (s.assignment field) := by
  cases field
  case port =>
    have below : s.port.toNat < 65536 := s.port.toNat_lt
    simp [Assignment.read?, fieldTree, naturalBelow?, assignment, below]
  case timeoutMs =>
    have below : s.timeoutMs.toNat < 18446744073709551616 := s.timeoutMs.toNat_lt
    simp [Assignment.read?, fieldTree, naturalBelow?, assignment, below]
  case username | password | requestingUserName =>
    simp [Assignment.read?, fieldTree, optionalText?_optionalTree, assignment]
  case host | defaultJobName | sessionLogin => rfl

theorem member?_memberTree (field : Field) :
    member? (s.memberTree field) = some (some (s.assignment field)) := by
  simp [member?, memberTree, Field.ofName?_name, read?_fieldTree]

/-- Every field is given its value, so that nothing is left of the standard. -/
theorem foldl_assign_assignment : (Field.all.map s.assignment).foldl assign standard = s := by
  obtain ⟨host, port, timeoutMs, username, password, requestingUserName, jobName, login⟩ := s
  simp only [Field.all, List.map_cons, List.map_nil, List.foldl_cons, List.foldl_nil, assignment,
    assign]

theorem mapM_memberTree (fields : List Field) :
    (fields.map s.memberTree).mapM member? = some ((fields.map s.assignment).map some) := by
  induction fields with
  | nil => rfl
  | cons field fields ih => simp [List.mapM_cons, member?_memberTree, ih]

theorem ofJson?_object : ofJson? (.object (Field.all.map s.memberTree)) = some s := by
  have said : assignments? (.object (Field.all.map s.memberTree)) =
      some (Field.all.map s.assignment) := by
    rw [assignments?, mapM_memberTree, Option.map_some, List.filterMap_map]
    exact congrArg some List.filterMap_some
  have fields : (Field.all.map s.assignment).map Assignment.field = Field.all := rfl
  have once : Field.all.Nodup := by decide
  simp only [ofJson?, said, fields, once, if_true, foldl_assign_assignment]

end Trees

section Texts

theorem writes_quoted (text : String) : Writes (quoted text) (.text (some text)) :=
  ⟨_, (Json.scans_quoted text).inside, Json.builds_text _⟩

theorem writes_natural (n : Nat) : Writes (toString n).toList (.number (some n)) := by
  rw [Nat.toString_eq_ofList_toDigits, String.toList_ofList]
  exact ⟨_, Json.scansInside_toDigits n, Json.builds_number _⟩

theorem writes_optionalQuoted (text : Option String) :
    Writes (optionalQuoted text) (optionalTree text) := by
  cases text with
  | none => exact ⟨_, Json.scans_null.inside, Json.builds_null⟩
  | some text => exact writes_quoted text

theorem writes_fieldText (field : Field) : Writes (s.fieldText field) (s.fieldTree field) := by
  cases field
  case host => exact writes_quoted s.host
  case port => exact writes_natural s.port.toNat
  case timeoutMs => exact writes_natural s.timeoutMs.toNat
  case username => exact writes_optionalQuoted s.username
  case password => exact writes_optionalQuoted s.password
  case requestingUserName => exact writes_optionalQuoted s.requestingUserName
  case defaultJobName => exact writes_quoted s.defaultJobName
  case sessionLogin => exact ⟨_, (Json.scans_bool s.sessionLogin).inside, Json.builds_bool _⟩

theorem writesMember_memberText (field : Field) :
    WritesMember (s.memberText field) (s.memberTree field) :=
  ⟨quoted field.name, s.fieldText field, rfl, Json.scans_quoted field.name,
    s.writes_fieldText field⟩

/-- The text of settings is read as the object with a member for each field. -/
theorem parse?_json :
    Json.parse? s.json.toList = some (.object (Field.all.map s.memberTree)) := by
  unfold json
  rw [String.toList_ofList]
  apply Json.parse?_object
  rw [List.forall₂_map_left_iff, List.forall₂_map_right_iff, List.forall₂_same]
  intro field _
  exact s.writesMember_memberText field

end Texts

/-- A file with the text of settings is loaded as these settings, if they are valid. -/
theorem load_json : load (some (Text.utf8 s.json)) = s.validate.map fun _ => s := by
  simp only [load, Text.strict?_utf8, parse?_json, Option.bind_some, ofJson?_object]

/-- Loading settings that were written gives all of them back if they are valid, and
the reason why they are not otherwise. No file is loaded as settings that are not
valid. -/
theorem load_json_exact (file : Option Bytes) :
    (s.validate = .ok () → load (some (Text.utf8 s.json)) = .ok s) ∧
      (∀ fault, s.validate = .error fault →
        load (some (Text.utf8 s.json)) = .error fault ∧
          ∃ cause, fault = .invalidSettings cause) ∧
      ∀ loaded, load file = .ok loaded → loaded.validate = .ok () := by
  refine ⟨?_, ?_, ?_⟩
  · intro valid
    rw [load_json, valid]
    rfl
  · intro fault invalid
    constructor
    · rw [load_json, invalid]
      rfl
    · unfold validate at invalid
      split at invalid
      · next cause _ =>
        cases invalid
        exact ⟨cause, rfl⟩
      · cases invalid
  · intro loaded handed
    exact (validate_eq_ok_iff loaded).mpr (invalid?_of_load handed)

/-- Marks, control characters and a character beyond the sixteen bits are read back, and
of two reasons to refuse settings the first one is given. -/
theorem load_json_exact_escaped :
    let odd : Settings := { standard with
      host := "a\"b\\c\n\x01é😀"
      timeoutMs := 18446744073709551615
      username := some "" }
    let wrong : Settings := { standard with host := " ", port := 0 }
    load (some (Text.utf8 odd.json)) = .ok odd ∧
      load (some (Text.utf8 wrong.json)) = .error (.invalidSettings .blankHost) ∧
      odd.validate = .ok () := by
  intro odd wrong
  have loaded : load (some (Text.utf8 odd.json)) = .ok odd :=
    (load_json_exact odd none).1 (by decide +kernel)
  refine ⟨loaded, ?_, ?_⟩
  · exact ((load_json_exact wrong none).2.1 _ (by decide +kernel)).1
  · exact (load_json_exact odd _).2.2 odd loaded

end InternetPrinting.Settings
