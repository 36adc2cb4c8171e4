import InternetPrinting.Proofs.Wire.ParsedResponse
import InternetPrinting.Proofs.Wire.RequestReading

/-!
# What an insertion leaves on the wire

Inserting a value gives the first row of its name the value alone, where the row
stands, and touches no other name. But a name can have further rows, since rows
are appended without being merged, and these keep their values. They are written
behind the inserted value, and it is the last of them that a reader reports. So an
insertion replaces the values of its name exactly if no later row has any.
-/

namespace InternetPrinting

theorem Table.alterRows_append_cons {κ ν : Type} [DecidableEq κ] {key : κ} {before : List (κ × ν)}
    (unused : key ∉ before.map (·.1)) (old : ν) (after : List (κ × ν)) (change : Option ν → ν) :
    alterRows key change (before ++ (key, old) :: after) =
      before ++ (key, change (some old)) :: after := by
  induction before with
  | nil => simp [alterRows]
  | cons row rest ih =>
      simp only [List.map_cons, List.mem_cons, not_or] at unused
      rw [List.cons_append, alterRows, if_neg (Ne.symm unused.1), ih unused.2, List.cons_append]

/-- The values that entries have under a name, in order. -/
def Entry.valuesUnder (name : String) (entries : List Entry) : List Value :=
  ((attributes entries).filter fun stored => stored.1 = name).map (·.2)

namespace RequestAttributes

variable (attributes : RequestAttributes) (name : String)

/-- The values in the rows of a name behind its first one. -/
def laterValues : List String :=
  ((attributes.rows.filter fun row => row.1 = name).drop 1).flatMap (·.2)

/-- Where a value of a name is inserted: the rows before the first one of the name,
and those behind it. A new name comes behind all rows. -/
def Opens (before after : List (String × List String)) : Prop :=
  name ∉ before.map (·.1) ∧
    (attributes.rows = before ∧ after = [] ∨
      ∃ old, attributes.rows = before ++ (name, old) :: after)

theorem exists_opens : ∃ before after, attributes.Opens name before after := by
  obtain ⟨rows⟩ := attributes
  by_cases used : name ∈ rows.map (·.1)
  · obtain ⟨front, back, split, unused⟩ := List.eq_append_cons_of_mem used
    obtain ⟨before, behind, rfl, rfl, here⟩ := List.map_eq_append_iff.mp split
    obtain ⟨⟨_, old⟩, after, rfl, rfl, rfl⟩ := List.map_eq_cons_iff.mp here
    exact ⟨before, after, unused, .inr ⟨old, rfl⟩⟩
  · exact ⟨rows, [], used, .inl ⟨rfl, rfl⟩⟩

variable {attributes name} {before after : List (String × List String)}

theorem pairs_append_cons (before after : List (String × List String))
    (row : String × List String) :
    pairs ⟨before ++ row :: after⟩ =
      pairs ⟨before⟩ ++ row.2.map (row.1, ·) ++ pairs ⟨after⟩ := by
  simp [pairs]

/-- The inserted value is written between the values of the rows before it and
those of the rows behind it. -/
theorem Opens.pairs_insert (h : attributes.Opens name before after) (value : String) :
    pairs (insert attributes name value) = pairs ⟨before⟩ ++ (name, value) :: pairs ⟨after⟩ := by
  obtain ⟨rows⟩ := attributes
  obtain ⟨unused, ⟨rfl, rfl⟩ | ⟨old, rfl⟩⟩ := h
  · rw [insert, Table.set_of_notMem _ unused, pairs_append_cons]
    simp [pairs]
  · rw [insert, Table.set, Table.alter, Table.alterRows_append_cons unused, pairs_append_cons]
    simp

theorem filter_pairs_of_notMem {rows : List (String × List String)}
    (unused : name ∉ rows.map (·.1)) :
    (pairs ⟨rows⟩).filter (fun pair => pair.1 = name) = [] := by
  rw [List.filter_eq_nil_iff]
  intro pair member same
  obtain ⟨row, inRows, inRow⟩ := List.mem_flatMap.mp member
  obtain ⟨value, _, rfl⟩ := List.mem_map.mp inRow
  exact unused (List.mem_map.mpr ⟨row, inRows, of_decide_eq_true same⟩)

/-- The values under a name are those of its rows. -/
theorem map_filter_pairs (rows : List (String × List String)) :
    ((pairs ⟨rows⟩).filter fun pair => pair.1 = name).map (·.2) =
      (rows.filter fun row => row.1 = name).flatMap (·.2) := by
  induction rows with
  | nil => rfl
  | cons row rest ih =>
      have split : pairs ⟨row :: rest⟩ = row.2.map (row.1, ·) ++ pairs ⟨rest⟩ := rfl
      rw [split, List.filter_append, List.map_append, ih]
      by_cases here : row.1 = name
      · simp [here, List.filter_map, Function.comp_def]
      · simp [here, List.filter_map, Function.comp_def]

theorem Opens.laterValues_eq (h : attributes.Opens name before after) :
    laterValues attributes name = ((pairs ⟨after⟩).filter fun pair => pair.1 = name).map (·.2) := by
  obtain ⟨rows⟩ := attributes
  have none (unused : name ∉ before.map (·.1)) : before.filter (fun row => row.1 = name) = [] := by
    rw [List.filter_eq_nil_iff]
    intro row member same
    exact unused (List.mem_map.mpr ⟨row, member, of_decide_eq_true same⟩)
  rw [map_filter_pairs, laterValues]
  obtain ⟨unused, ⟨rfl, rfl⟩ | ⟨old, rfl⟩⟩ := h
  · simp [none unused]
  · simp [none unused]

/-- Under the name the inserted value is written, and then what its later rows hold. -/
theorem Opens.map_filter_pairs_insert (h : attributes.Opens name before after) (value : String) :
    ((pairs (insert attributes name value)).filter fun pair => pair.1 = name).map (·.2) =
      value :: laterValues attributes name := by
  rw [h.pairs_insert, h.laterValues_eq, List.filter_append, filter_pairs_of_notMem h.1]
  simp

/-- What is written under the other names stays as it was. -/
theorem Opens.filter_pairs_insert (h : attributes.Opens name before after) (value : String) :
    (pairs (insert attributes name value)).filter (fun pair => pair.1 ≠ name) =
      (pairs attributes).filter fun pair => pair.1 ≠ name := by
  rw [h.pairs_insert]
  obtain ⟨rows⟩ := attributes
  obtain ⟨unused, ⟨rfl, rfl⟩ | ⟨old, rfl⟩⟩ := h
  · simp [pairs]
  · rw [pairs_append_cons]
    simp [List.filter_map, Function.comp_def]

theorem attributes_map_entryOf (values : List (String × String)) :
    Entry.attributes (values.map entryOf) = values.map fun pair => (pair.1, .charset pair.2) := by
  induction values with
  | nil => rfl
  | cons pair rest ih => exact congrArg (_ :: ·) ih

theorem valuesUnder_map_entryOf (name : String) (values : List (String × String)) :
    Entry.valuesUnder name (values.map entryOf) =
      ((values.filter fun pair => pair.1 = name).map (·.2)).map .charset := by
  rw [Entry.valuesUnder, attributes_map_entryOf, List.filter_map, List.map_map, List.map_map]
  rfl

/-- A reader finds the last of the values that were written under a name. -/
theorem find?_arranged_entryOf {values : List (String × String)} (nonempty : values ≠ [])
    (name : String) :
    (Groups.arranged (Entry.placements none (values.map entryOf))).find? name =
      (((values.filter fun pair => pair.1 = name).map (·.2)).getLast?).map .charset := by
  rw [arranged_entryOf nonempty, Groups.find?, List.findSome?_singleton, Table.get?_ofLastValues,
    lastValue?_map, lastValue?_eq_getLast?]

end RequestAttributes

namespace Request

open RequestAttributes (pairs entryOf tooLong? laterValues)

/-- The entries of a request that fits are carried by its message. -/
theorem carries_bytes {r : Request} (short : tooLong? r.attributes = none) :
    Message.Carries r.bytes ((pairs r.attributes).map entryOf) := by
  have spelled := RequestAttributes.spellsAll_bytes short
  obtain ⟨payload, ends⟩ : ∃ payload, Message.Ending (0x03 :: r.payload.getD []) payload := by
    exact ⟨_, Message.ending_iff.mpr ⟨_, rfl, .inr rfl⟩⟩
  exact ⟨_, _, _, payload, Message.length_header _ _ _ _, spelled, ends, rfl⟩

/-- The request with one more value inserted. -/
def inserting (r : Request) (name value : String) : Request :=
  { r with attributes := RequestAttributes.insert r.attributes name value }

/-- What an insertion does in every case: the value is written where the first row
of its name stands, it is the one that is looked up, and what is written under the
other names stays as it was. -/
structure Inserted (r : Request) (name value : String) (entries : List Entry) : Prop where
  place : ∃ before after, r.attributes.Opens name before after ∧
    entries = (pairs ⟨before⟩ ++ (name, value) :: pairs ⟨after⟩).map entryOf
  held : (r.inserting name value).attributes.get? name = some [value]
  others : (Entry.attributes entries).filter (fun stored => stored.1 ≠ name) =
    ((pairs r.attributes).filter fun pair => pair.1 ≠ name).map fun pair =>
      (pair.1, .charset pair.2)

/-- An insertion that replaces: nothing else is written under the name, so that a
reader reports the value that is looked up. -/
structure Replaced (r : Request) (name value : String) (entries : List Entry)
    (response : Response) : Prop extends r.Inserted name value entries where
  single : Entry.valuesUnder name entries = [.charset value]
  reported : response.find? name = some (.charset value)

theorem inserted_pairs (r : Request) (name value : String) :
    r.Inserted name value ((pairs (r.inserting name value).attributes).map entryOf) := by
  obtain ⟨before, after, opens⟩ := r.attributes.exists_opens name
  refine ⟨⟨before, after, opens, congrArg _ (opens.pairs_insert value)⟩, ?_, ?_⟩
  · rw [inserting, RequestAttributes.insert, Table.get?_set, if_pos rfl]
  · rw [RequestAttributes.attributes_map_entryOf, List.filter_map]
    exact congrArg (List.map _) (opens.filter_pairs_insert value)

/-- What is written after an insertion. The values of later rows of the name come
behind the inserted one, and a reader reports the last of them. So the insertion
replaces exactly if there are none. -/
theorem replaced_iff_of_encode {r : Request} {name value : String} {message : Bytes}
    (encoded : (r.inserting name value).encode = .ok message) :
    ∃ entries response, Message.Carries message entries ∧
      Response.parse message = .ok response ∧ r.Inserted name value entries ∧
      Entry.valuesUnder name entries = (value :: laterValues r.attributes name).map .charset ∧
      response.find? name = ((value :: laterValues r.attributes name).getLast?).map .charset ∧
      (r.Replaced name value entries response ↔ laterValues r.attributes name = []) := by
  obtain ⟨short, rfl⟩ := encode_eq_ok_iff.mp encoded
  obtain ⟨before, after, opens⟩ := r.attributes.exists_opens name
  have values := opens.map_filter_pairs_insert value
  have nonempty : pairs (r.inserting name value).attributes ≠ [] := by
    rw [inserting, opens.pairs_insert]
    simp
  have under : Entry.valuesUnder name ((pairs (r.inserting name value).attributes).map entryOf) =
      (value :: laterValues r.attributes name).map .charset := by
    rw [RequestAttributes.valuesUnder_map_entryOf, inserting, values]
  have found := RequestAttributes.find?_arranged_entryOf nonempty name
  rw [inserting, values] at found
  have inserted := r.inserted_pairs name value
  refine ⟨_, _, carries_bytes short, Response.parse_eq_ok_iff.mpr (spells_bytes short), inserted,
    under, found, ?_⟩
  constructor
  · intro replaced
    have single := under.symm.trans replaced.single
    simpa using single
  · intro none
    rw [none] at under found
    exact { inserted with single := under, reported := found }

/-- Attributes with two rows of a name. -/
def twiceAppended (later : List String) : Request where
  major := 1
  minor := 1
  operation := .printJob
  id := 7
  attributes := (RequestAttributes.ofPairs [("copies", "1"), ("media", "a4")]).append
    (RequestAttributes.insertMany .empty "copies" later)
  payload := none

theorem replaced_iff_of_encode_twiceAppended :
    ∃ message entries response, ((twiceAppended []).inserting "copies" "3").encode = .ok message ∧
      Message.Carries message entries ∧ Response.parse message = .ok response ∧
      (twiceAppended []).Replaced "copies" "3" entries response := by
  have encoded : ((twiceAppended []).inserting "copies" "3").encode = .ok _ :=
    encode_eq_ok_iff.mpr ⟨by decide, rfl⟩
  obtain ⟨entries, response, carried, parsed, -, -, -, replaces⟩ := replaced_iff_of_encode encoded
  exact ⟨_, entries, response, encoded, carried, parsed, replaces.mpr (by decide)⟩

/-- With a value in the second row, the insertion does not replace: both values are
written, and the reader reports the other one than is looked up. -/
theorem not_replaced_twiceAppended :
    ∃ message entries response,
      ((twiceAppended ["2"]).inserting "copies" "3").encode = .ok message ∧
      Message.Carries message entries ∧ Response.parse message = .ok response ∧
      ((twiceAppended ["2"]).inserting "copies" "3").attributes.get? "copies" = some ["3"] ∧
      Entry.valuesUnder "copies" entries = [.charset "3", .charset "2"] ∧
      response.find? "copies" = some (.charset "2") ∧
      ¬ (twiceAppended ["2"]).Replaced "copies" "3" entries response := by
  have short : tooLong? ((twiceAppended ["2"]).inserting "copies" "3").attributes = none := by
    decide
  have reported : (Groups.arranged (Entry.placements none
      ((pairs ((twiceAppended ["2"]).inserting "copies" "3").attributes).map entryOf))).find?
        "copies" = some (.charset "2") := by decide
  refine ⟨_, _, _, encode_eq_ok_iff.mpr ⟨short, rfl⟩, carries_bytes short,
    Response.parse_eq_ok_iff.mpr (spells_bytes short), by decide, by decide, reported, ?_⟩
  intro replaced
  have same := reported.symm.trans replaced.reported
  exact absurd same (by decide)

end Request

end InternetPrinting
