import InternetPrinting.Proofs.Store.Placement

/-!
# What every arrangement has in common

Values that are placed one after another arrange themselves into proper groups:
no group occurs twice or is empty, and no name occurs twice in a group. Nothing
but the placed values is in the groups, there are at most as many of them as
were placed, and a name is found exactly if a value was placed under it. Where
the places come from entries, only the first group can lack a name.
-/

namespace InternetPrinting

section Tables

variable {κ ν : Type} [DecidableEq κ]

/-- The last value of a key is one of its values. -/
theorem mem_of_lastValue? {pairs : List (κ × ν)} {key : κ} {value : ν}
    (h : lastValue? pairs key = some value) : (key, value) ∈ pairs := by
  obtain ⟨pair, found, rfl⟩ := Option.map_eq_some_iff.mp h
  obtain rfl : pair.1 = key := by simpa using List.find?_some found
  exact List.mem_reverse.mp (List.mem_of_find?_eq_some found)

/-- A key that is used first comes first and does not come again. -/
theorem notMem_tail_firstUses (key : κ) (rest : List κ) : key ∉ (firstUses (key :: rest)).tail := by
  have nodup : (firstUses (key :: rest)).Nodup := nodup_firstUses _
  rw [firstUses, List.eraseDups_cons] at nodup ⊢
  exact (List.nodup_cons.mp nodup).1

namespace Table

omit [DecidableEq κ] in
theorem length_keys (t : Table κ ν) : t.keys.length = t.size :=
  List.length_map _

theorem size_set_le (t : Table κ ν) (key : κ) (value : ν) :
    (t.set key value).size ≤ t.size + 1 := by
  rw [← length_keys, ← length_keys, keys_set]
  split
  · exact Nat.le_succ _
  · exact Nat.le_of_eq List.length_append

end Table

end Tables

namespace Groups

/-- The number of values in all groups. -/
def valueCount (groups : Groups) : Nat :=
  groups.rows.foldr (fun row count => row.2.size + count) 0

/-- Storing a value adds at most one. -/
theorem valueCount_store_le (groups : Groups) (group : Option String) (name : String)
    (value : Value) : (groups.store group name value).valueCount ≤ groups.valueCount + 1 := by
  obtain ⟨rows⟩ := groups
  simp only [valueCount, store, Table.alter]
  induction rows with
  | nil =>
      have single := Table.size_set_le (.empty : Attributes) name value
      simpa [Table.alterRows, Table.size, Table.empty] using single
  | cons row rest ih =>
      by_cases here : row.1 = group
      · have grown := Table.size_set_le row.2 name value
        simp only [Table.alterRows, if_pos here, List.foldr_cons, Option.getD_some]
        omega
      · simp only [Table.alterRows, if_neg here, List.foldr_cons]
        omega

variable (placed : List Placement)

theorem valueCount_arranged_le : (arranged placed).valueCount ≤ placed.length := by
  induction placed using List.reverseRecOn with
  | nil => exact Nat.le_refl 0
  | append_singleton placed p ih =>
      calc
        (arranged (placed ++ [p])).valueCount
            = ((arranged placed).store p.group p.name p.value).valueCount := by rw [arranged_concat]
        _ ≤ (arranged placed).valueCount + 1 := valueCount_store_le _ _ _ _
        _ ≤ placed.length + 1 := Nat.succ_le_succ ih
        _ = (placed ++ [p]).length := by rw [List.length_append, List.length_singleton]

variable {placed}

/-- The groups of an arrangement are those that received a value, each with the
last values that were placed in it. -/
theorem mem_rows_arranged {row : Option String × Attributes} :
    row ∈ (arranged placed).rows ↔
      row.1 ∈ placed.map (·.group) ∧ row.2 = .ofLastValues (placedIn placed row.1) := by
  rw [← Table.get?_eq_some_iff (nodup_keys_arranged placed), get?_arranged]
  by_cases used : row.1 ∈ placed.map (·.group)
  · rw [if_pos used, Option.some_inj, eq_comm]
    exact (and_iff_right used).symm
  · simp [used]

theorem mem_placedIn {group : Option String} {pair : String × Value} :
    pair ∈ placedIn placed group ↔ ⟨group, pair.1, pair.2⟩ ∈ placed := by
  constructor
  · intro member
    obtain ⟨p, here, rfl⟩ := List.mem_map.mp member
    obtain ⟨isPlaced, same⟩ := List.mem_filter.mp here
    obtain rfl : p.group = group := of_decide_eq_true same
    exact isPlaced
  · intro member
    exact List.mem_map.mpr ⟨_, List.mem_filter.mpr ⟨member, decide_eq_true rfl⟩, rfl⟩

/-- What is in a group was placed there. -/
theorem placed_of_mem_arranged {row : Option String × Attributes}
    (inRows : row ∈ (arranged placed).rows) {stored : String × Value}
    (inRow : stored ∈ row.2.rows) :
    ⟨row.1, stored.1, stored.2⟩ ∈ placed := by
  rw [(mem_rows_arranged.mp inRows).2] at inRow
  have last := (Table.get?_eq_some_iff (Table.nodup_keys_ofLastValues _)).mpr inRow
  rw [Table.get?_ofLastValues] at last
  exact mem_placedIn.mp (mem_of_lastValue? last)

variable (placed)

theorem proper_arranged : (arranged placed).Proper where
  distinct := nodup_keys_arranged placed
  nonempty := by
    intro row inRows empty
    obtain ⟨used, attributes⟩ := mem_rows_arranged.mp inRows
    obtain ⟨p, isPlaced, group⟩ := List.mem_map.mp used
    have value : (p.name, p.value) ∈ placedIn placed row.1 := mem_placedIn.mpr (group ▸ isPlaced)
    have named : p.name ∈ row.2.keys := by
      rw [attributes, Table.keys_ofLastValues, mem_firstUses]
      exact List.mem_map_of_mem value
    rw [Table.keys, empty] at named
    exact List.not_mem_nil named
  distinctNames := by
    intro row inRows
    rw [(mem_rows_arranged.mp inRows).2]
    exact Table.nodup_keys_ofLastValues _

/-- A name is found exactly if a value was placed under it. -/
theorem isSome_find?_arranged (name : String) :
    ((arranged placed).find? name).isSome ↔ ∃ p ∈ placed, p.name = name := by
  rw [find?, List.findSome?_isSome_iff]
  constructor
  · rintro ⟨row, inRows, found⟩
    rw [(mem_rows_arranged.mp inRows).2, Table.get?_ofLastValues, lastValue?_isSome_iff] at found
    obtain ⟨pair, member, rfl⟩ := List.mem_map.mp found
    exact ⟨_, mem_placedIn.mp member, rfl⟩
  · rintro ⟨p, isPlaced, rfl⟩
    have value : (p.name, p.value) ∈ placedIn placed p.group := mem_placedIn.mpr isPlaced
    refine ⟨(p.group, .ofLastValues (placedIn placed p.group)), ?_, ?_⟩
    · exact mem_rows_arranged.mpr ⟨List.mem_map_of_mem isPlaced, rfl⟩
    · rw [Table.get?_ofLastValues, lastValue?_isSome_iff]
      exact List.mem_map_of_mem value

end Groups

namespace Entry

/-- The name and the value of an attribute. -/
def attribute? : Entry → Option (String × Value)
  | .marker _ => none
  | .attribute name value => some (name, value)

/-- The attributes among some entries in order. -/
def attributes (entries : List Entry) : List (String × Value) :=
  entries.filterMap attribute?

theorem mem_attributes {entries : List Entry} {name : String} {value : Value} :
    (name, value) ∈ attributes entries ↔ .attribute name value ∈ entries := by
  rw [attributes, List.mem_filterMap]
  constructor
  · rintro ⟨_ | ⟨name, value⟩, member, same⟩
    · cases same
    · cases same
      exact member
  · intro member
    exact ⟨_, member, rfl⟩

/-- Every attribute is placed once, in order. -/
theorem map_placements (current : Option String) (entries : List Entry) :
    (placements current entries).map (fun p => (p.name, p.value)) = attributes entries := by
  induction entries generalizing current with
  | nil => rfl
  | cons entry rest ih =>
      rcases entry with group | ⟨name, value⟩
      · exact ih (some group)
      · exact congrArg ((name, value) :: ·) (ih current)

theorem length_placements (current : Option String) (entries : List Entry) :
    (placements current entries).length = (attributes entries).length := by
  rw [← map_placements current, List.length_map]

/-- What is placed are the attributes. -/
theorem exists_mem_placements (current : Option String) {entries : List Entry} {name : String}
    {value : Value} :
    (∃ p ∈ placements current entries, p.name = name ∧ p.value = value) ↔
      .attribute name value ∈ entries := by
  rw [← mem_attributes, ← map_placements current, List.mem_map]
  simp only [Prod.mk.injEq]

/-- Behind a marker every attribute goes to a group with a name. -/
theorem group_ne_none_of_mem_placements {group : String} {entries : List Entry} {p : Placement}
    (member : p ∈ placements (some group) entries) : p.group ≠ none := by
  induction entries generalizing group with
  | nil => cases member
  | cons entry rest ih =>
      rcases entry with next | ⟨name, value⟩
      · exact ih member
      · rcases List.mem_cons.mp member with rfl | later
        · exact Option.some_ne_none group
        · exact ih later

/-- Only the first of the groups can lack a name. -/
theorem none_notMem_tail_keys_arranged (entries : List Entry) :
    none ∉ (Groups.arranged (placements none entries)).keys.tail := by
  rw [Groups.keys_arranged]
  cases entries with
  | nil => exact List.not_mem_nil
  | cons entry rest =>
      rcases entry with group | ⟨name, value⟩
      · intro member
        have used := mem_firstUses.mp (List.mem_of_mem_tail member)
        obtain ⟨p, isPlaced, unnamed⟩ := List.mem_map.mp used
        have behind : p ∈ placements (some group) rest := isPlaced
        exact group_ne_none_of_mem_placements behind unnamed
      · exact notMem_tail_firstUses _ _

end Entry

end InternetPrinting
