import InternetPrinting.Proofs.Wire.Acceptance

/-!
# Responses read back

A response is well formed when its groups are proper, only the first of them
has no name, everything in it can be written, and its payload is not empty.
What is written for such a response is parsed as the response. The attributes
of a group may be written in any order, since reading gives the same groups in
the same order, each with the same values.
-/

namespace InternetPrinting

open Text (utf8)

namespace Entry

/-- Attributes behind one another go to the current group. -/
theorem placements_attributes (current : Option String) (rows : List (String × Value))
    (rest : List Entry) :
    placements current (rows.map (fun row => .attribute row.1 row.2) ++ rest) =
      Groups.placeAll current ⟨rows⟩ ++ placements current rest := by
  induction rows with
  | nil => rfl
  | cons row later ih => exact congrArg (_ :: ·) ih

/-- The attributes of a named group are placed in it, whatever came before. -/
theorem placements_groupEntries_some (current : Option String) (group : String)
    (attributes : Attributes) (rest : List Entry) :
    placements current (Response.groupEntries (some group, attributes) ++ rest) =
      Groups.placeAll (some group) attributes ++ placements (some group) rest :=
  placements_attributes (some group) attributes.rows rest

/-- The entries of named groups place the values of these groups. -/
theorem placements_named {rows : List (Option String × Attributes)}
    (named : none ∉ rows.map (·.1)) (current : Option String) :
    placements current (rows.flatMap Response.groupEntries) = Groups.placements ⟨rows⟩ := by
  induction rows generalizing current with
  | nil => rfl
  | cons row rest ih =>
      obtain ⟨group, attributes⟩ := row
      cases group with
      | none => simp at named
      | some group =>
          have later : none ∉ rest.map (·.1) := fun member => named (by simp [member])
          rw [List.flatMap_cons, placements_groupEntries_some, ih later]
          rfl

/-- The entries of a response place its values, if only the first group has no name. -/
theorem placements_entries {r : Response} (named : none ∉ r.groups.keys.tail) :
    placements none r.entries = r.groups.placements := by
  obtain ⟨_, _, _, _, ⟨rows⟩, _⟩ := r
  cases rows with
  | nil => rfl
  | cons row rest =>
      obtain ⟨group, attributes⟩ := row
      have later : none ∉ rest.map (·.1) := named
      cases group with
      | some group => exact placements_named (by simpa using later) none
      | none =>
          have first : Response.groupEntries (none, attributes) =
              attributes.rows.map fun row => .attribute row.1 row.2 := rfl
          rw [Response.entries, List.flatMap_cons, first, placements_attributes,
            placements_named later]
          rfl

end Entry

namespace Response

/-- A response that is read back from what is written for it. -/
structure WellFormed (r : Response) : Prop where
  groups : r.groups.Proper
  named : none ∉ r.groups.keys.tail
  groupNames : ∀ group, some group ∈ r.groups.keys → (utf8 group).length ≤ 65535
  attributes : ∀ row ∈ r.groups.rows, ∀ stored ∈ row.2.rows,
    (utf8 stored.1).length ≤ 65535 ∧ stored.2.Writable
  payload : r.payload ≠ some []

/-- The same group with its attributes in another order. -/
def SameAttributes (a b : Option String × Attributes) : Prop :=
  a.1 = b.1 ∧ a.2.rows.Perm b.2.rows

/-- The same group, told by its name and the value of every attribute. -/
def SameValues (a b : Option String × Attributes) : Prop :=
  a.1 = b.1 ∧ ∀ name, a.2.get? name = b.2.get? name

/-- The same response, up to what is not told apart in its groups. The groups
stand in the same order. -/
structure Alike (same : Option String × Attributes → Option String × Attributes → Prop)
    (r s : Response) : Prop where
  major : r.major = s.major
  minor : r.minor = s.minor
  status : r.status = s.status
  requestId : r.requestId = s.requestId
  payload : r.payload = s.payload
  groups : List.Forall₂ same r.groups.rows s.groups.rows

theorem writable_of_wellFormed {r : Response} (h : r.WellFormed) {entry : Entry}
    (member : entry ∈ r.entries) : entry.Writable := by
  obtain ⟨row, inRows, inRow⟩ := List.mem_flatMap.mp member
  rcases List.mem_append.mp inRow with isMarker | isAttribute
  · obtain ⟨group, named, rfl⟩ : ∃ group, row.1 = some group ∧ Entry.marker group = entry := by
      simpa using isMarker
    exact h.groupNames group (named ▸ List.mem_map_of_mem inRows)
  · obtain ⟨stored, inGroup, rfl⟩ := List.mem_map.mp isAttribute
    exact h.attributes row inRows stored inGroup

/-- What is written for a well-formed response spells it. -/
theorem spells_bytes {r : Response} (h : r.WellFormed) : Spells r.bytes r := by
  have spelled := Entry.spellsAll_flatMap_bytes fun _ member => writable_of_wellFormed h member
  have ends : Message.Ending (0x03 :: r.payload.getD []) r.payload := by
    cases held : r.payload with
    | none => exact .tag
    | some bytes =>
        apply Message.Ending.payload
        intro empty
        exact h.payload (held.trans (congrArg some empty))
  have written := Spells.intro r.major r.minor r.status r.requestId spelled ends
  rwa [Entry.placements_entries h.named, Groups.arranged_placements h.groups] at written

theorem map_fst_eq_of_sameAttributes {rows others : List (Option String × Attributes)}
    (h : List.Forall₂ SameAttributes rows others) : rows.map (·.1) = others.map (·.1) := by
  induction h with
  | nil => rfl
  | cons same _ ih => rw [List.map_cons, List.map_cons, same.1, ih]

theorem exists_sameAttributes_of_mem {rows others : List (Option String × Attributes)}
    (h : List.Forall₂ SameAttributes rows others) {other : Option String × Attributes}
    (member : other ∈ others) : ∃ row ∈ rows, SameAttributes row other := by
  induction h with
  | nil => cases member
  | @cons row first rows others same _ ih =>
      rcases List.mem_cons.mp member with rfl | later
      · exact ⟨row, by simp, same⟩
      · obtain ⟨found, inRows, same'⟩ := ih later
        exact ⟨found, by simp [inRows], same'⟩

/-- The order of the attributes in a group does not matter to well-formedness. -/
theorem WellFormed.of_alike {r s : Response} (h : r.WellFormed)
    (alike : r.Alike SameAttributes s) : s.WellFormed := by
  have keys : r.groups.keys = s.groups.keys := map_fst_eq_of_sameAttributes alike.groups
  refine ⟨⟨keys ▸ h.groups.distinct, ?_, ?_⟩, keys ▸ h.named, keys ▸ h.groupNames, ?_,
    alike.payload ▸ h.payload⟩
  · intro other member empty
    obtain ⟨row, inRows, _, perm⟩ := exists_sameAttributes_of_mem alike.groups member
    rw [empty] at perm
    exact h.groups.nonempty row inRows perm.eq_nil
  · intro other member
    obtain ⟨row, inRows, _, perm⟩ := exists_sameAttributes_of_mem alike.groups member
    have names : row.2.keys.Perm other.2.keys := perm.map _
    exact names.nodup (h.groups.distinctNames row inRows)
  · intro other member stored inOther
    obtain ⟨row, inRows, _, perm⟩ := exists_sameAttributes_of_mem alike.groups member
    exact h.attributes row inRows stored (perm.mem_iff.mpr inOther)

/-- Another order of the attributes gives every attribute the same value. -/
theorem sameValues_of_sameAttributes {rows others : List (Option String × Attributes)}
    (h : List.Forall₂ SameAttributes rows others) (distinct : ∀ row ∈ rows, row.2.keys.Nodup) :
    List.Forall₂ SameValues rows others := by
  induction h with
  | nil => exact .nil
  | @cons row other rows others same _ ih =>
      have nodup : row.2.keys.Nodup := distinct row (by simp)
      exact .cons ⟨same.1, Table.get?_eq_of_perm nodup same.2⟩
        (ih fun later member => distinct later (by simp [member]))

/-- A well-formed response is parsed from what is written for it, in whatever
order the attributes of each group are written: the groups come back in the
same order, and every attribute with the same value. -/
theorem parse_bytes_of_wellFormed {r s : Response} (wellFormed : r.WellFormed)
    (order : r.Alike SameAttributes s) :
    parse s.bytes = .ok s ∧ r.Alike SameValues s := by
  constructor
  · apply parse_eq_ok_iff.mpr
    exact spells_bytes (wellFormed.of_alike order)
  · exact { order with
      groups := sameValues_of_sameAttributes order.groups wellFormed.groups.distinctNames }

/-- A response with an attribute before any group, and with the given ones in a
group whose name is empty. -/
def twoGroups (attributes : Attributes) : Response where
  major := 1
  minor := 1
  status := 0
  requestId := 7
  groups := ⟨[(none, ⟨[("copies", .integer (-2))]⟩), (some "", attributes)]⟩
  payload := some [0x03]

def infoFirst : Attributes :=
  ⟨[("info", .nameWithLanguage "de" "Büro"), ("blob", .unknown 0x7E [0xFF])]⟩

def blobFirst : Attributes :=
  ⟨[("blob", .unknown 0x7E [0xFF]), ("info", .nameWithLanguage "de" "Büro")]⟩

theorem parse_bytes_of_wellFormed_twoGroups :
    parse (twoGroups infoFirst).bytes = .ok (twoGroups infoFirst) ∧
      (twoGroups blobFirst).Alike SameValues (twoGroups infoFirst) := by
  apply parse_bytes_of_wellFormed
  · refine ⟨⟨by decide, by decide, by decide⟩, by decide, ?_, ?_, by decide⟩
    · intro group named
      obtain rfl : group = "" := by simpa [twoGroups, Table.keys] using named
      decide
    · intro row inRows stored inRow
      obtain rfl | rfl : row = _ ∨ row = _ := by simpa [twoGroups] using inRows
      · obtain rfl : stored = ("copies", .integer (-2)) := by simpa using inRow
        exact ⟨by decide, by decide⟩
      · obtain rfl | rfl : stored = _ ∨ stored = _ := by simpa [blobFirst] using inRow
        · exact ⟨by decide, by decide⟩
        · exact ⟨by decide, by decide⟩
  · exact ⟨rfl, rfl, rfl, rfl, rfl, .cons ⟨rfl, .refl _⟩ (.cons ⟨rfl, .swap _ _ _⟩ .nil)⟩

end Response

end InternetPrinting
