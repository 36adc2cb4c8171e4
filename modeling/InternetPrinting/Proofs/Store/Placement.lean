import InternetPrinting.Proofs.Store.LastWrites
import InternetPrinting.Response.Wire

/-!
# Where the entries of a message place their values

An attribute belongs to the group that the latest marker before it names. The
placed values of a message arrange themselves into groups: one for each group
that received a value, in the order of their first values, holding the last
value of every name placed in it. Taking in the entries one by one builds
exactly this arrangement.
-/

namespace InternetPrinting

/-- A value with the group and the name it is stored under. -/
structure Placement where
  group : Option String
  name : String
  value : Value
deriving DecidableEq, Repr

/-- The attributes among the entries, each with the group named by the latest
marker before it. Those before any marker go to the current group. -/
def Entry.placements (current : Option String) : List Entry → List Placement
  | [] => []
  | .marker group :: rest => placements (some group) rest
  | .attribute name value :: rest => ⟨current, name, value⟩ :: placements current rest

namespace Groups

/-- The names and values placed in one group, in order. -/
def placedIn (placed : List Placement) (group : Option String) : List (String × Value) :=
  (placed.filter fun p => p.group = group).map fun p => (p.name, p.value)

/-- The groups that hold the placed values: each group once, in the order of
first use, with the last value of every name placed in it. -/
def arranged (placed : List Placement) : Groups :=
  .tabulate (firstUses (placed.map (·.group))) fun group =>
    some (.ofLastValues (placedIn placed group))

theorem placedIn_append (front back : List Placement) (group : Option String) :
    placedIn (front ++ back) group = placedIn front group ++ placedIn back group := by
  simp [placedIn]

theorem placedIn_of_unused {placed : List Placement} {group : Option String}
    (unused : group ∉ placed.map (·.group)) : placedIn placed group = [] := by
  rw [placedIn, List.map_eq_nil_iff, List.filter_eq_nil_iff]
  intro p member here
  exact unused (List.mem_map.mpr ⟨p, member, of_decide_eq_true here⟩)

theorem keys_arranged (placed : List Placement) :
    (arranged placed).keys = firstUses (placed.map (·.group)) :=
  Table.keys_tabulate fun _ _ => rfl

theorem nodup_keys_arranged (placed : List Placement) : (arranged placed).keys.Nodup := by
  rw [keys_arranged]
  exact nodup_firstUses _

theorem get?_arranged (placed : List Placement) (group : Option String) :
    (arranged placed).get? group =
      if group ∈ placed.map (·.group) then some (.ofLastValues (placedIn placed group))
      else none := by
  rw [arranged, Table.get?_tabulate]
  simp only [mem_firstUses]

/-- The attributes of a group that is used are those placed in it, and an
unused group would have none. -/
theorem getD_get?_arranged (placed : List Placement) (group : Option String) :
    ((arranged placed).get? group).getD .empty = .ofLastValues (placedIn placed group) := by
  rw [get?_arranged]
  split
  · rfl
  · next unused =>
    rw [placedIn_of_unused unused]
    rfl

/-- One more value is stored where it is placed. -/
theorem arranged_concat (placed : List Placement) (p : Placement) :
    arranged (placed ++ [p]) = (arranged placed).store p.group p.name p.value := by
  apply Table.eq_of_keys_of_get? (nodup_keys_arranged _)
  · rw [keys_store, keys_arranged, keys_arranged, List.map_append, List.map_singleton,
      firstUses_concat]
    by_cases used : p.group ∈ placed.map (·.group) <;> simp [used]
  · intro group
    rw [get?_store, getD_get?_arranged, get?_arranged, get?_arranged, placedIn_append]
    by_cases here : group = p.group
    · simp [here, placedIn, Table.ofLastValues_concat]
    · simp [here, placedIn, Ne.symm here]

/-- Storing placed values one by one arranges them. -/
theorem foldl_store_eq_arranged (placed : List Placement) :
    placed.foldl (fun groups p => groups.store p.group p.name p.value) .empty =
      arranged placed := by
  induction placed using List.reverseRecOn with
  | nil => rfl
  | append_singleton placed p ih =>
      rw [List.foldl_append, ih, arranged_concat]
      rfl

/-- Values that all go to one group make up this group and no other. -/
theorem arranged_of_single {placed : List Placement} {group : Option String}
    (nonempty : placed ≠ []) (single : ∀ p ∈ placed, p.group = group) :
    arranged placed =
      ⟨[(group, .ofLastValues (placed.map fun p => (p.name, p.value)))]⟩ := by
  have groups : placed.map (·.group) = [] ++ List.replicate placed.length group := by
    rw [List.nil_append]
    exact List.map_eq_replicate_iff.mpr single
  have many : placed.length ≠ 0 := mt List.length_eq_zero_iff.mp nonempty
  have all : placed.filter (fun p => p.group = group) = placed :=
    List.filter_eq_self.mpr fun p member => decide_eq_true (single p member)
  rw [arranged, groups, firstUses_append_replicate (List.not_mem_nil) many, firstUses_nil,
    List.nil_append]
  change (⟨[(group, .ofLastValues (placedIn placed group))]⟩ : Groups) = _
  rw [placedIn, all]

/-- The values of some attributes, placed in one group. -/
def placeAll (group : Option String) (attributes : Attributes) : List Placement :=
  attributes.rows.map fun row => ⟨group, row.1, row.2⟩

/-- The values of all groups with their places, group by group. -/
def placements (groups : Groups) : List Placement :=
  groups.rows.flatMap fun row => placeAll row.1 row.2

theorem groups_placeAll (group : Option String) (attributes : Attributes) :
    (placeAll group attributes).map (·.group) =
      List.replicate attributes.rows.length group := by
  rw [placeAll, List.map_map]
  exact List.map_const'

theorem mem_groups_placeAll {group other : Option String} {attributes : Attributes}
    (h : other ∈ (placeAll group attributes).map (·.group)) : other = group := by
  rw [groups_placeAll] at h
  exact List.eq_of_mem_replicate h

theorem placedIn_placeAll (group : Option String) (attributes : Attributes) :
    placedIn (placeAll group attributes) group = attributes.rows := by
  have all : (placeAll group attributes).filter (fun p => p.group = group) =
      placeAll group attributes := by
    rw [List.filter_eq_self]
    intro p member
    exact decide_eq_true (mem_groups_placeAll (List.mem_map_of_mem member))
  rw [placedIn, all, placeAll, List.map_map]
  exact List.map_id _

/-- A group that comes as a whole behind the others is added at the end. -/
theorem arranged_append_placeAll {placed : List Placement} {group : Option String}
    {attributes : Attributes} (unused : group ∉ placed.map (·.group))
    (nonempty : attributes.rows ≠ []) (nodup : attributes.keys.Nodup) :
    arranged (placed ++ placeAll group attributes) = (arranged placed).set group attributes := by
  have many : attributes.rows.length ≠ 0 := mt List.length_eq_zero_iff.mp nonempty
  apply Table.eq_of_keys_of_get? (nodup_keys_arranged _)
  · rw [keys_arranged, Table.keys_set, keys_arranged, List.map_append, groups_placeAll,
      firstUses_append_replicate unused many, if_neg (mt mem_firstUses.mp unused)]
  · intro other
    rw [Table.get?_set, get?_arranged, get?_arranged, placedIn_append, List.map_append]
    by_cases here : other = group
    · subst here
      have used : other ∈ (placeAll other attributes).map (·.group) := by
        rw [groups_placeAll]
        exact List.mem_replicate.mpr ⟨many, rfl⟩
      rw [if_pos (List.mem_append_right _ used), if_pos rfl, placedIn_of_unused unused,
        placedIn_placeAll, List.nil_append, Table.ofLastValues_rows nodup]
    · have away : other ∉ (placeAll group attributes).map (·.group) :=
        mt mem_groups_placeAll here
      simp only [List.mem_append, away, or_false, placedIn_of_unused away, List.append_nil,
        if_neg here]

/-- Each group occurs once, none is empty, and each name occurs once in its group. -/
structure Proper (groups : Groups) : Prop where
  distinct : groups.keys.Nodup
  nonempty : ∀ row ∈ groups.rows, row.2.rows ≠ []
  distinctNames : ∀ row ∈ groups.rows, row.2.keys.Nodup

theorem mem_keys_of_placements {groups : Groups} {group : Option String}
    (h : group ∈ (placements groups).map (·.group)) : group ∈ groups.keys := by
  obtain ⟨p, placed, rfl⟩ := List.mem_map.mp h
  obtain ⟨row, member, placed⟩ := List.mem_flatMap.mp placed
  rw [mem_groups_placeAll (List.mem_map_of_mem placed)]
  exact List.mem_map_of_mem member

/-- Proper groups are the arrangement of their own values. -/
theorem arranged_placements {groups : Groups} (proper : groups.Proper) :
    arranged (placements groups) = groups := by
  obtain ⟨rows⟩ := groups
  induction rows using List.reverseRecOn with
  | nil => rfl
  | append_singleton rows row ih =>
      have apart : (rows.map (·.1) ++ [row.1]).Nodup := by
        simpa only [Table.keys, List.map_append, List.map_singleton] using proper.distinct
      obtain ⟨distinct, _, unused⟩ := List.nodup_append.mp apart
      have fresh : row.1 ∉ Table.keys (⟨rows⟩ : Groups) := fun used =>
        unused row.1 used row.1 (by simp) rfl
      have front : Groups.Proper ⟨rows⟩ :=
        ⟨distinct, fun other member => proper.nonempty other (by simp [member]),
          fun other member => proper.distinctNames other (by simp [member])⟩
      have split : placements ⟨rows ++ [row]⟩ = placements ⟨rows⟩ ++ placeAll row.1 row.2 := by
        simp [placements]
      rw [split, arranged_append_placeAll (mt mem_keys_of_placements fresh)
        (proper.nonempty row (by simp)) (proper.distinctNames row (by simp)), ih front]
      exact Table.set_of_notMem row.2 fresh

end Groups

namespace Assembly

theorem groups_foldl_add (entries : List Entry) (a : Assembly) :
    (entries.foldl add a).groups =
      (Entry.placements a.current entries).foldl
        (fun groups p => groups.store p.group p.name p.value) a.groups := by
  induction entries generalizing a with
  | nil => rfl
  | cons entry rest ih =>
      rw [List.foldl_cons, ih]
      rcases entry with group | ⟨name, value⟩ <;> rfl

/-- Taking in entries one by one arranges the values that they place. -/
theorem groups_foldl_add_empty (entries : List Entry) :
    (entries.foldl add {}).groups = Groups.arranged (Entry.placements none entries) :=
  (groups_foldl_add entries {}).trans (Groups.foldl_store_eq_arranged _)

end Assembly

end InternetPrinting
