import InternetPrinting.Proofs.Store.Arrangement
import InternetPrinting.Proofs.Wire.Acceptance
import InternetPrinting.Proofs.Wire.PrefixFree

/-!
# What every parsed response has in common

Whatever message a response was parsed from, its groups are proper and only the
first of them can lack a name, its values without a kind have a tag that means
nothing else, and its payload is the end of the message. Five bytes of the message
were spent on each attribute at least. An attribute is found exactly if the
message carries one of this name.
-/

namespace InternetPrinting

open Message (Ending)

/-- A value is kept as it came only under a tag that belongs to no kind. -/
theorem Value.notMem_knownTags_of_decode {tag other : UInt8} {raw bytes : Bytes}
    (h : decode tag bytes = .ok (.unknown other raw)) : other ∉ knownTags := by
  obtain rfl : other = tag := tag_of_decode h
  unfold decode at h
  split at h
  -- These kinds can fail, and build their value from what was read.
  case h_1 | h_2 | h_3 | h_8 | h_9 =>
    obtain ⟨_, _, same⟩ := map_eq_ok_iff.mp h
    cases same
  case h_17 => simp_all [knownTags]
  all_goals cases h

namespace Entry

/-- An attribute has a tag and two lengths besides its name and its value. -/
theorem SpellsAll.five_mul_le {bytes : Bytes} {entries : List Entry} (h : SpellsAll bytes entries) :
    5 * (attributes entries).length ≤ bytes.length := by
  induction h with
  | nil => exact Nat.le_refl 0
  | @cons first rest entry entries head tail ih =>
      rw [List.length_append]
      cases head with
      | @marker group short =>
          have skipped : attributes (.marker (Text.lossy group) :: entries) =
              attributes entries := rfl
          rw [skipped]
          omega
      | @tagged tag name raw value notEnd notGroup shortName shortValue meaning =>
          have counted : (attributes (.attribute (Text.lossy name) value :: entries)).length =
              (attributes entries).length + 1 := rfl
          have spent : (tag :: (Bytes.field name ++ Bytes.field raw)).length =
              name.length + raw.length + 5 := by
            simp only [List.length_cons, List.length_append, Bytes.length_field]
            omega
          rw [counted, spent]
          omega

/-- The value of every attribute was read under a tag of its own. -/
theorem SpellsAll.exists_decode {bytes : Bytes} {entries : List Entry} (h : SpellsAll bytes entries)
    {name : String} {value : Value} (member : .attribute name value ∈ entries) :
    ∃ tag raw, Value.decode tag raw = .ok value ∧ tag ≠ 0x03 ∧ tag ≠ 0x04 := by
  induction h with
  | nil => cases member
  | cons head tail ih =>
      rcases List.mem_cons.mp member with rfl | later
      · cases head with
        | tagged notEnd notGroup _ _ meaning => exact ⟨_, _, meaning, notEnd, notGroup⟩
      · exact ih later

end Entry

namespace Message

/-- The entries that a message carries between its header and its ending. -/
def Carries (data : Bytes) (entries : List Entry) : Prop :=
  ∃ head attributes ending payload, head.length = 8 ∧
    Entry.SpellsAll attributes entries ∧ Ending ending payload ∧
    data = head ++ attributes ++ ending

/-- With one more end tag behind it, an ending begins with an end tag. -/
theorem Ending.exists_append_endTag {ending : Bytes} {payload : Option Bytes}
    (h : Ending ending payload) : ∃ left, ending ++ [0x03] = 0x03 :: left := by
  cases h with
  | message => exact ⟨[], rfl⟩
  | tag => exact ⟨[0x03], rfl⟩
  | @payload bytes nonempty => exact ⟨bytes ++ [0x03], rfl⟩

theorem Ending.suffix {ending : Bytes} {payload : Option Bytes} (h : Ending ending payload) :
    payload.getD [] <:+ ending := by
  cases h with
  | message => exact List.suffix_refl []
  | tag => exact List.nil_suffix
  | payload nonempty => exact List.suffix_cons _ _

theorem Ending.payload_ne {ending : Bytes} {payload : Option Bytes} (h : Ending ending payload) :
    payload ≠ some [] := by
  cases h with
  | message | tag => exact (Option.some_ne_none _).symm
  | payload nonempty => exact fun empty => nonempty (Option.some.inj empty)

/-- A message carries its entries in one way only. -/
theorem Carries.unique {data : Bytes} {entries others : List Entry} (here : Carries data entries)
    (there : Carries data others) : others = entries := by
  obtain ⟨head, attributes, ending, payload, eight, spelled, ends, rfl⟩ := here
  obtain ⟨head', attributes', ending', payload', eight', spelled', ends', same⟩ := there
  rw [List.append_assoc, List.append_assoc] at same
  obtain ⟨-, behind⟩ := List.append_inj same (eight.trans eight'.symm)
  -- An end tag is put behind both endings, since either of them may be empty.
  obtain ⟨left, tagged⟩ := ends.exists_append_endTag
  obtain ⟨left', tagged'⟩ := ends'.exists_append_endTag
  have closed : attributes' ++ 0x03 :: left' = attributes ++ 0x03 :: left := by
    rw [← tagged, ← tagged', ← List.append_assoc, ← List.append_assoc, behind]
  exact (spelled'.unique spelled closed).1

end Message

namespace Response

/-- What holds of a response and the entries of the message it was parsed from. -/
structure ReadFrom (data : Bytes) (entries : List Entry) (r : Response) : Prop where
  proper : r.groups.Proper
  ungroupedFirst : none ∉ r.groups.keys.tail
  unknownTags : ∀ row ∈ r.groups.rows, ∀ stored ∈ row.2.rows, ∀ tag raw,
    stored.2 = .unknown tag raw → tag ∉ Value.knownTags ∧ tag ≠ 0x03 ∧ tag ≠ 0x04
  payload : r.payload ≠ some [] ∧ r.payload.getD [] <:+ data
  room : 8 + 5 * r.groups.valueCount + (r.payload.getD []).length ≤ data.length
  group : ∀ name attributes,
    r.group? name = some attributes ↔ (some name, attributes) ∈ r.groups.rows
  ungrouped : ∀ attributes, r.ungrouped? = some attributes ↔ (none, attributes) ∈ r.groups.rows
  found : ∀ name, (r.find? name).isSome ↔ ∃ value, .attribute name value ∈ entries

/-- What is read from spelled entries and an ending. -/
theorem readFrom_spelled (major minor : UInt8) (status : UInt16) (requestId : UInt32)
    {attributes ending : Bytes} {entries : List Entry} {payload : Option Bytes}
    (spelled : Entry.SpellsAll attributes entries) (ends : Ending ending payload) :
    ReadFrom (Message.header major minor status requestId ++ attributes ++ ending) entries
      { major, minor, status, requestId
        groups := .arranged (Entry.placements none entries)
        payload } where
  proper := Groups.proper_arranged _
  ungroupedFirst := Entry.none_notMem_tail_keys_arranged entries
  unknownTags := by
    intro row inRows stored inRow tag raw unknown
    have isPlaced := Groups.placed_of_mem_arranged inRows inRow
    have member := (Entry.exists_mem_placements none).mp ⟨_, isPlaced, rfl, unknown⟩
    obtain ⟨read, bytes, meaning, notEnd, notGroup⟩ := spelled.exists_decode member
    obtain rfl : tag = read := Value.tag_of_decode meaning
    exact ⟨Value.notMem_knownTags_of_decode meaning, notEnd, notGroup⟩
  payload := ⟨ends.payload_ne, ends.suffix.trans (List.suffix_append _ _)⟩
  room := by
    have stored := Groups.valueCount_arranged_le (Entry.placements none entries)
    have spent := spelled.five_mul_le
    have left := ends.suffix.length_le
    rw [Entry.length_placements] at stored
    rw [List.length_append, List.length_append, Message.length_header]
    simp only
    omega
  group := fun name attributes => Table.get?_eq_some_iff (Groups.nodup_keys_arranged _)
  ungrouped := fun attributes => Table.get?_eq_some_iff (Groups.nodup_keys_arranged _)
  found := by
    intro name
    rw [find?, Groups.isSome_find?_arranged]
    constructor
    · rintro ⟨p, isPlaced, named⟩
      exact ⟨p.value, (Entry.exists_mem_placements none).mp ⟨p, isPlaced, named, rfl⟩⟩
    · rintro ⟨value, member⟩
      obtain ⟨p, isPlaced, named, -⟩ := (Entry.exists_mem_placements none).mpr member
      exact ⟨p, isPlaced, named⟩

/-- A message that is accepted carries entries in one way, and what is read from
them is well formed. -/
theorem exists_readFrom_of_parse {data : Bytes} {r : Response} (parsed : parse data = .ok r) :
    ∃ entries, Message.Carries data entries ∧
      (∀ others, Message.Carries data others → others = entries) ∧ r.ReadFrom data entries := by
  cases parse_eq_ok_iff.mp parsed with
  | @intro major minor status requestId attributes ending entries payload spelled ends =>
      have carried : Message.Carries
          (Message.header major minor status requestId ++ attributes ++ ending) entries :=
        ⟨_, _, _, _, Message.length_header _ _ _ _, spelled, ends, rfl⟩
      refine ⟨entries, carried, fun others => carried.unique, ?_⟩
      exact readFrom_spelled major minor status requestId spelled ends

/-- Entries that leave two groups, one of them still without attributes, and come
back to both. -/
def comingBack : List Entry :=
  [.attribute "copies" (.integer 1), .marker "printer", .marker "job",
    .attribute "blob" (.unknown 0x7E [0xFF]), .marker "printer", .attribute "copies" (.integer 2),
    .marker "job", .attribute "blob" (.unknown 0x7E [])]

def comingBackMessage : Bytes :=
  Message.header 1 1 0 7 ++ comingBack.flatMap Entry.bytes ++ [0x03, 0x03]

theorem exists_readFrom_of_parse_comingBack :
    ∃ r entries, parse comingBackMessage = .ok r ∧ Message.Carries comingBackMessage entries ∧
      r.ReadFrom comingBackMessage entries ∧ r.groups.keys = [none, some "job", some "printer"] ∧
      r.payload = some [0x03] := by
  have writable : ∀ entry ∈ comingBack, entry.Writable := by decide
  have spelled := Spells.intro 1 1 0 7 (Entry.spellsAll_flatMap_bytes writable)
    (.payload (List.cons_ne_nil 0x03 []))
  have parsed := parse_eq_ok_iff.mpr spelled
  obtain ⟨entries, carried, -, read⟩ := exists_readFrom_of_parse parsed
  exact ⟨_, entries, parsed, carried, read, by decide, rfl⟩

end Response

end InternetPrinting
