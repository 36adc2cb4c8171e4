import InternetPrinting.Proofs.Json.Grammar
import InternetPrinting.Proofs.Settings.RoundTrip

/-!
# Objects that are loaded as settings

An object describes settings if each of its keys is text and the keys of fields, none of
them twice, have values of the kind the fields need. What other keys there are, what they
hold, and in which order the members stand does not matter: what is loaded are the standard
settings with the listed fields as they are given. A field that occurs twice, and any text
behind the object, are refused.
-/

namespace InternetPrinting.Settings

open Json (Denotes)

section Descriptions

/-- The tree of the value that a field is given. -/
def Assignment.tree : Assignment → Json
  | .host text => .text (some text)
  | .port n => .number (some n.toNat)
  | .timeoutMs n => .number (some n.toNat)
  | .username text => optionalTree text
  | .password text => optionalTree text
  | .requestingUserName text => optionalTree text
  | .defaultJobName text => .text (some text)
  | .sessionLogin b => .bool b

/-- Members that give fields these values in this order, with other keys anywhere. -/
inductive Lists : List (Option String × Json) → List Assignment → Prop
  | nil : Lists [] []
  | field {members : List (Option String × Json)} {said : List Assignment} (a : Assignment)
      (behind : Lists members said) : Lists ((some a.field.name, a.tree) :: members) (a :: said)
  | other {members : List (Option String × Json)} {said : List Assignment} {key : String}
      (value : Json) (unknown : ∀ field : Field, field.name ≠ key)
      (behind : Lists members said) : Lists ((some key, value) :: members) said

/-- A text is an object that gives fields these values, none of them twice. -/
structure Describes (text : String) (said : List Assignment) : Prop where
  object : ∃ members, Denotes text.toList (.object members) ∧ Lists members said
  once : (said.map Assignment.field).Nodup

/-- Settings in which these fields are as they are given and all others as they are in the
standard settings. -/
structure Overrides (said : List Assignment) (s : Settings) : Prop where
  listed : ∀ a ∈ said, s.assignment a.field = a
  other : ∀ field ∉ said.map Assignment.field, s.assignment field = standard.assignment field

end Descriptions

section Assigning

theorem assignment_assign_self (s : Settings) (a : Assignment) :
    (s.assign a).assignment a.field = a := by
  cases a <;> rfl

theorem assignment_assign_other (s : Settings) {a : Assignment} {field : Field}
    (other : field ≠ a.field) : (s.assign a).assignment field = s.assignment field := by
  cases a <;> cases field <;> first | rfl | exact absurd rfl other

/-- Settings are told apart by their fields. -/
theorem ext_assignment {s t : Settings} (same : ∀ field, s.assignment field = t.assignment field) :
    s = t := by
  rw [← s.foldl_assign_assignment, ← t.foldl_assign_assignment, funext same]

theorem assignment_foldl_other {said : List Assignment} {field : Field}
    (other : field ∉ said.map Assignment.field) (s : Settings) :
    (said.foldl assign s).assignment field = s.assignment field := by
  induction said generalizing s with
  | nil => rfl
  | cons a said ih =>
    rw [List.map_cons, List.mem_cons, not_or] at other
    rw [List.foldl_cons, ih other.2, assignment_assign_other s other.1]

theorem assignment_foldl_listed {said : List Assignment}
    (once : (said.map Assignment.field).Nodup) {a : Assignment} (mem : a ∈ said) (s : Settings) :
    (said.foldl assign s).assignment a.field = a := by
  induction said generalizing s with
  | nil => cases mem
  | cons first said ih =>
    obtain ⟨fresh, once⟩ := List.nodup_cons.mp once
    rw [List.foldl_cons]
    rcases List.mem_cons.mp mem with rfl | mem
    · rw [assignment_foldl_other fresh, assignment_assign_self]
    · exact ih once mem _

theorem overrides_foldl {said : List Assignment} (once : (said.map Assignment.field).Nodup) :
    Overrides said (said.foldl assign standard) where
  listed _ mem := assignment_foldl_listed once mem standard
  other _ other := assignment_foldl_other other standard

theorem Overrides.unique {said : List Assignment} {s t : Settings} (overrides : Overrides said s)
    (again : Overrides said t) : s = t := by
  apply ext_assignment
  intro field
  by_cases mem : field ∈ said.map Assignment.field
  · obtain ⟨a, listed, rfl⟩ := List.mem_map.mp mem
    rw [overrides.listed a listed, again.listed a listed]
  · rw [overrides.other field mem, again.other field mem]

/-- In which order fields are listed does not matter. -/
theorem Overrides.congr {said again : List Assignment} {s : Settings}
    (overrides : Overrides said s) (same : ∀ a, a ∈ said ↔ a ∈ again) : Overrides again s where
  listed a mem := overrides.listed a ((same a).mpr mem)
  other field other := by
    apply overrides.other
    intro mem
    obtain ⟨a, listed, rfl⟩ := List.mem_map.mp mem
    exact other (List.mem_map_of_mem ((same a).mp listed))

end Assigning

section Reading

variable {members : List (Option String × Json)} {said : List Assignment}

theorem read?_tree (a : Assignment) : Assignment.read? a.field a.tree = some a := by
  have read := (standard.assign a).read?_fieldTree a.field
  rw [assignment_assign_self] at read
  cases a <;> exact read

theorem field_of_read? {field : Field} {value : Json} {a : Assignment}
    (read : Assignment.read? field value = some a) : a.field = field := by
  cases field <;>
  · obtain ⟨_, _, rfl⟩ := Option.map_eq_some_iff.mp read
    rfl

theorem ofName?_eq_none {key : String} (unknown : ∀ field : Field, field.name ≠ key) :
    Field.ofName? key = none :=
  List.find?_eq_none.mpr fun field _ => by simpa using unknown field

theorem Lists.mapM (lists : Lists members said) :
    ∃ read, members.mapM member? = some read ∧ read.filterMap id = said := by
  induction lists with
  | nil => exact ⟨[], rfl, rfl⟩
  | @field members said a lists ih =>
    obtain ⟨read, all, rfl⟩ := ih
    have first : member? (some a.field.name, a.tree) = some (some a) := by
      simp [member?, Field.ofName?_name, read?_tree]
    exact ⟨some a :: read, by simp [List.mapM_cons, first, all], rfl⟩
  | @other members said key value unknown lists ih =>
    obtain ⟨read, all, rfl⟩ := ih
    have first : member? (some key, value) = some none := by
      simp [member?, ofName?_eq_none unknown]
    exact ⟨none :: read, by simp [List.mapM_cons, first, all], rfl⟩

theorem Lists.ofJson? (lists : Lists members said) (once : (said.map Assignment.field).Nodup) :
    ofJson? (.object members) = some (said.foldl assign standard) := by
  obtain ⟨read, all, rfl⟩ := lists.mapM
  simp only [Settings.ofJson?, assignments?, all, Option.map_some, once, if_true]

/-- The field with a key that is text. -/
def keyField? (key : Option String) : Option Field :=
  key.bind Field.ofName?

theorem field_of_member? {member : Option String × Json} {read : Option Assignment}
    (said : member? member = some read) :
    read.map Assignment.field = keyField? member.1 := by
  obtain ⟨key, value⟩ := member
  cases key with
  | none => cases said
  | some key =>
    simp only [member?] at said
    change _ = Field.ofName? key
    cases known : Field.ofName? key with
    | none =>
      rw [known] at said
      cases said
      rfl
    | some field =>
      rw [known] at said
      obtain ⟨a, valued, rfl⟩ := Option.map_eq_some_iff.mp said
      rw [Option.map_some, field_of_read? valued]

/-- The fields that are read are those whose keys occur, in their order. -/
theorem map_field_of_mapM {read : List (Option Assignment)}
    (all : members.mapM member? = some read) :
    (read.filterMap id).map Assignment.field =
      (members.map Prod.fst).filterMap keyField? := by
  induction members generalizing read with
  | nil =>
    cases all
    rfl
  | cons member members ih =>
    rw [List.mapM_cons] at all
    obtain ⟨first, said, all⟩ := Option.bind_eq_some_iff.mp all
    obtain ⟨rest, behind, same⟩ := Option.bind_eq_some_iff.mp all
    cases same
    have field := field_of_member? said
    rw [List.map_cons]
    cases first with
    | none =>
      rw [List.filterMap_cons_none field.symm, ← ih behind]
      rfl
    | some a =>
      rw [List.filterMap_cons_some field.symm, ← ih behind]
      rfl

/-- A field that occurs twice is refused, whatever else is there. -/
theorem ofJson?_eq_none_of_repeated {field : Field}
    (repeated : [some field.name, some field.name].Sublist (members.map Prod.fst)) :
    Settings.ofJson? (.object members) = none := by
  simp only [Settings.ofJson?, assignments?]
  cases all : members.mapM member? with
  | none => rfl
  | some read =>
    have twice : [field, field].Sublist ((read.filterMap id).map Assignment.field) := by
      rw [map_field_of_mapM all]
      simpa [keyField?, Field.ofName?_name] using repeated.filterMap keyField?
    have notOnce : ¬((read.filterMap id).map Assignment.field).Nodup :=
      fun once => List.nodup_iff_sublist.mp once field twice
    exact if_neg notOnce

end Reading

section Files

theorem load_of_ofJson? {text : String} {tree : Json} {s : Settings}
    (denotes : Denotes text.toList tree) (described : ofJson? tree = some s) :
    load (some (Text.utf8 text)) = s.validate.map fun _ => s := by
  simp only [load, Text.strict?_utf8, Json.parse?_eq_some_iff.mpr denotes, Option.bind_some,
    described]

theorem load_malformed {text : String} (refused : (Json.parse? text.toList).bind ofJson? = none) :
    load (some (Text.utf8 text)) = .error .malformedSettings := by
  simp only [load, Text.strict?_utf8, refused]

theorem Describes.load {text : String} {said : List Assignment} (describes : Describes text said)
    {s : Settings} (overrides : Overrides said s) :
    Settings.load (some (Text.utf8 text)) = s.validate.map fun _ => s := by
  obtain ⟨members, denotes, lists⟩ := describes.object
  rw [overrides.unique (overrides_foldl describes.once)]
  exact load_of_ofJson? denotes (lists.ofJson? describes.once)

/-- A text that is an object with fields that have values of their kind, none of them
twice, is loaded as the standard settings with these fields as they are given, if that is
valid. Texts that give the same fields the same values are loaded alike. An object in which
a field occurs twice is refused as malformed whatever else it has, and so are an object with
anything but white space behind it and any text that denotes nothing at all. -/
theorem load_object_exact :
    (∀ text said, Describes text said →
      ∃ s, Overrides said s ∧ (∀ other, Overrides said other → other = s) ∧
        load (some (Text.utf8 text)) = s.validate.map fun _ => s) ∧
    (∀ text said other again, Describes text said → Describes other again →
      (∀ a, a ∈ said ↔ a ∈ again) →
        load (some (Text.utf8 text)) = load (some (Text.utf8 other))) ∧
    (∀ (text : String) members (field : Field), Denotes text.toList (.object members) →
      [some field.name, some field.name].Sublist (members.map Prod.fst) →
        load (some (Text.utf8 text)) = .error .malformedSettings) ∧
    (∀ (text behind : String) members, Denotes text.toList (.object members) →
      (∃ c ∈ behind.toList, Json.isSpace c = false) →
        load (some (Text.utf8 (text ++ behind))) = .error .malformedSettings) ∧
    ∀ text : String, (¬∃ tree, Denotes text.toList tree) →
      load (some (Text.utf8 text)) = .error .malformedSettings := by
  refine ⟨?_, ?_, ?_, ?_, ?_⟩
  · intro text said describes
    have overrides := overrides_foldl describes.once
    exact ⟨_, overrides, fun other again => again.unique overrides, describes.load overrides⟩
  · intro text said other again describes describesOther same
    have overrides := overrides_foldl describes.once
    rw [describes.load overrides, describesOther.load (overrides.congr same)]
  · intro text members field denotes repeated
    apply load_malformed
    rw [Json.parse?_eq_some_iff.mpr denotes]
    exact ofJson?_eq_none_of_repeated repeated
  · intro text behind members denotes visible
    apply load_malformed
    rw [String.toList_append, Json.parse?_append_eq_none denotes visible]
    rfl
  · intro text nothing
    apply load_malformed
    cases parsed : Json.parse? text.toList with
    | none => rfl
    | some tree => exact absurd ⟨tree, Json.parse?_eq_some_iff.mp parsed⟩ nothing

/-- Two fields, the first with an escape in its key, between unknown keys. -/
def nestedText : String :=
  "\t\x7b\"x\":[\x7b\"host\":-1e5\x7d],\n\"po\\u0072t\" :91,\"x\":\"\\ud800\",\"username\":null\x7d"

/-- An object with a field that occurs twice. -/
def repeatedText : String :=
  "\x7b\"host\": \"a\", \"x\": 1.5, \"host\": null\x7d"

/-- A key with an escape is read, and neither a key inside an unknown one nor a lone
surrogate there does harm. -/
theorem load_object_exact_nested :
    Describes nestedText [.port 91, .username none] ∧
      load (some (Text.utf8 nestedText)) = .ok { standard with port := 91 } ∧
      load (some (Text.utf8 (nestedText ++ "0"))) = .error .malformedSettings ∧
      load (some (Text.utf8 repeatedText)) = .error .malformedSettings := by
  have denotes : Denotes nestedText.toList (.object [(some "x", .array
      [.object [(some "host", .number none)]]), (some "port", .number (some 91)),
      (some "x", .text none), (some "username", .null)]) :=
    Json.parse?_eq_some_iff.mp rfl
  have unknown : ∀ field : Field, field.name ≠ "x" := by
    intro field
    cases field <;> decide
  have describes : Describes nestedText [.port 91, .username none] :=
    ⟨⟨_, denotes, .other _ unknown (.field (.port 91) (.other _ unknown
      (.field (.username none) .nil)))⟩, by decide⟩
  refine ⟨describes, ?_, ?_, ?_⟩
  · obtain ⟨s, _, unique, loaded⟩ := load_object_exact.1 nestedText _ describes
    have overrides : Overrides [.port 91, .username none] { standard with port := 91 } := by
      refine ⟨by decide, ?_⟩
      intro field other
      cases field <;> first | rfl | exact absurd (by decide) other
    rw [loaded, ← unique _ overrides]
    decide +kernel
  · exact load_object_exact.2.2.2.1 nestedText "0" _ denotes ⟨'0', by decide, rfl⟩
  · have object : Denotes repeatedText.toList (.object [(some "host", .text (some "a")),
        (some "x", .number none), (some "host", .null)]) := Json.parse?_eq_some_iff.mp rfl
    apply load_object_exact.2.2.1 repeatedText _ .host object
    decide

end Files

end InternetPrinting.Settings
