import InternetPrinting.Proofs.Wire.Acceptance
import InternetPrinting.Request.Wire

/-!
# Requests read as responses

A request has the same layout as a response without group markers, and all its
attributes carry the tag of a charset. So what a request spells can be parsed
as a response. It has the header of the request, the last value of every name
in the group without a name, and the payload.
-/

namespace InternetPrinting

open Message (header)
open Text (utf8)

namespace RequestAttributes

theorem foldl_max_le_iff (lengths : List Nat) (first bound : Nat) :
    lengths.foldl max first ≤ bound ↔ first ≤ bound ∧ ∀ length ∈ lengths, length ≤ bound := by
  induction lengths generalizing first with
  | nil => simp
  | cons length rest ih =>
      rw [List.foldl_cons, ih, List.forall_mem_cons, Nat.max_le, and_assoc]

/-- A row fits when its name and all its values do. -/
theorem longest_le_iff (row : String × List String) (bound : Nat) :
    longest row ≤ bound ↔
      (utf8 row.1).length ≤ bound ∧ ∀ value ∈ row.2, (utf8 value).length ≤ bound := by
  rw [longest, foldl_max_le_iff]
  simp

/-- Nothing is too long exactly when every name, also one without values, and
every value fits into a field. -/
theorem tooLong?_eq_none_iff {attributes : RequestAttributes} :
    tooLong? attributes = none ↔
      ∀ row ∈ attributes.rows, (utf8 row.1).length ≤ 65535 ∧
        ∀ value ∈ row.2, (utf8 value).length ≤ 65535 := by
  simp only [tooLong?, Option.map_eq_none_iff, List.find?_eq_none, decide_eq_true_eq, Nat.not_lt,
    longest_le_iff]
  exact Iff.rfl

/-- The entry that one value under its name is read as. -/
def entryOf (pair : String × String) : Entry :=
  .attribute pair.1 (.charset pair.2)

/-- Every value that is written fits into a field, and so does its name. -/
theorem length_le_of_mem_pairs {attributes : RequestAttributes}
    (short : tooLong? attributes = none) {pair : String × String} (h : pair ∈ pairs attributes) :
    (utf8 pair.1).length ≤ 65535 ∧ (utf8 pair.2).length ≤ 65535 := by
  obtain ⟨row, inRows, inRow⟩ := List.mem_flatMap.mp h
  obtain ⟨value, inValues, rfl⟩ := List.mem_map.mp inRow
  obtain ⟨shortName, shortValues⟩ := tooLong?_eq_none_iff.mp short row inRows
  exact ⟨shortName, shortValues value inValues⟩

theorem writable_entryOf {attributes : RequestAttributes} (short : tooLong? attributes = none)
    {entry : Entry} (h : entry ∈ (pairs attributes).map entryOf) : entry.Writable := by
  obtain ⟨pair, member, rfl⟩ := List.mem_map.mp h
  exact length_le_of_mem_pairs short member

theorem bytes_eq_flatMap_entryOf (attributes : RequestAttributes) :
    bytes attributes = ((pairs attributes).map entryOf).flatMap Entry.bytes := by
  rw [bytes, List.flatMap_map]
  rfl

/-- The bytes of attributes that fit spell their values, one entry for each. -/
theorem spellsAll_bytes {attributes : RequestAttributes} (short : tooLong? attributes = none) :
    Entry.SpellsAll (bytes attributes) ((pairs attributes).map entryOf) := by
  rw [bytes_eq_flatMap_entryOf]
  apply Entry.spellsAll_flatMap_bytes
  intro entry member
  exact writable_entryOf short member

theorem placements_entryOf (values : List (String × String)) :
    Entry.placements none (values.map entryOf) =
      values.map fun pair => ⟨none, pair.1, .charset pair.2⟩ := by
  induction values with
  | nil => rfl
  | cons pair rest ih => rw [List.map_cons, List.map_cons, ← ih]; rfl

/-- The groups that a request is read as: none if it has no values, and else
the group without a name. -/
theorem arranged_entryOf {values : List (String × String)} (nonempty : values ≠ []) :
    Groups.arranged (Entry.placements none (values.map entryOf)) =
      ⟨[(none, .ofLastValues (values.map fun pair => (pair.1, .charset pair.2)))]⟩ := by
  have ungrouped : ∀ p ∈ Entry.placements none (values.map entryOf), p.group = none := by
    rw [placements_entryOf]
    intro p member
    obtain ⟨pair, _, rfl⟩ := List.mem_map.mp member
    rfl
  rw [Groups.arranged_of_single (by simpa [placements_entryOf] using nonempty) ungrouped,
    placements_entryOf, List.map_map]
  rfl

end RequestAttributes

namespace Request

/-- The bytes of a request whose fields fit spell a response with its header
and payload. -/
theorem spells_bytes {r : Request} (short : RequestAttributes.tooLong? r.attributes = none) :
    Response.Spells r.bytes
      { major := r.major
        minor := r.minor
        status := r.operation.code
        requestId := r.id
        groups := .arranged
          (Entry.placements none ((RequestAttributes.pairs r.attributes).map
            RequestAttributes.entryOf))
        payload := r.payload.filter (· ≠ []) } := by
  have ends : Message.Ending (0x03 :: r.payload.getD []) (r.payload.filter (· ≠ [])) := by
    cases r.payload with
    | none => exact .tag
    | some bytes =>
        cases bytes with
        | nil => exact .tag
        | cons b rest => exact .payload (List.cons_ne_nil b rest)
  exact .intro r.major r.minor r.operation.code r.id (RequestAttributes.spellsAll_bytes short) ends

/-- What is written for a request is parsed as a response with the version, the
id and the payload of the request, and with the code of its operation as the
status. There are no groups without values, and else the one without a name,
which holds the last value of every name as a charset. -/
theorem parse_of_encode {r : Request} {message : Bytes} (encoded : r.encode = .ok message) :
    ∃ response, Response.parse message = .ok response ∧
      response.major = r.major ∧ response.minor = r.minor ∧
      response.requestId = r.id ∧ response.status = r.operation.code ∧
      response.payload = r.payload.filter (· ≠ []) ∧
      (RequestAttributes.pairs r.attributes = [] → response.groups.rows = []) ∧
      (RequestAttributes.pairs r.attributes ≠ [] →
        ∃ attributes : Attributes, response.groups.rows = [(none, attributes)] ∧
          attributes.keys.Nodup ∧
          ∀ name, attributes.get? name =
            (lastValue? (RequestAttributes.pairs r.attributes) name).map .charset) := by
  obtain ⟨short, rfl⟩ := encode_eq_ok_iff.mp encoded
  refine ⟨_, Response.parse_eq_ok_iff.mpr (spells_bytes short), rfl, rfl, rfl, rfl, rfl, ?_, ?_⟩
  · intro none
    simp only [none, List.map_nil]
    rfl
  · intro nonempty
    refine ⟨_, congrArg Table.rows (RequestAttributes.arranged_entryOf nonempty),
      Table.nodup_keys_ofLastValues _, ?_⟩
    intro name
    rw [Table.get?_ofLastValues, lastValue?_map]

/-- A request with a name in two rows, a name without values, and a payload
that begins with an end tag. -/
def twoRows : Request where
  major := 2
  minor := 0
  operation := .printJob
  id := 7
  attributes := ⟨[("copies", ["1"]), ("media", []), ("copies", ["2", "3"])]⟩
  payload := some [0x03, 0x04]

/-- The last of the three values is the one that is read. -/
theorem parse_of_encode_twoRows :
    ∃ message response attributes, twoRows.encode = .ok message ∧
      Response.parse message = .ok response ∧ response.status = 0x0002 ∧
      response.payload = some [0x03, 0x04] ∧ response.groups.rows = [(none, attributes)] ∧
      attributes.get? "copies" = some (.charset "3") ∧ attributes.get? "media" = none := by
  have encoded : twoRows.encode = .ok twoRows.bytes := encode_eq_ok_iff.mpr ⟨by decide, rfl⟩
  obtain ⟨response, parsed, _, _, _, status, payload, _, grouped⟩ := parse_of_encode encoded
  obtain ⟨attributes, rows, _, values⟩ := grouped (by decide)
  exact ⟨_, response, attributes, encoded, parsed, status, payload, rows, values "copies",
    values "media"⟩

end Request

end InternetPrinting
