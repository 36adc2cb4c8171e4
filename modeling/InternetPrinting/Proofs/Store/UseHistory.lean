import InternetPrinting.Proofs.Store.LastWrites
import InternetPrinting.Response

/-!
# Groups as the history of their use

Groups are used one at a time: one of them is made sure of, or a value is stored in it.
After any history of uses each used group is there once, in the order of first use, and
holds the last value of every name that was stored in it. A use moves no group and changes
no value but the one that is stored, so a name is found in the first group that ever
received a value for it.
-/

namespace InternetPrinting

/-- Later keys come behind those that were used before. -/
theorem firstUses_prefix_append {κ : Type} [DecidableEq κ] (front back : List κ) :
    firstUses front <+: firstUses (front ++ back) := by
  rw [firstUses_append]
  exact List.prefix_append _ _

/-- One use of the groups. -/
inductive Use
  | touch (group : Option String)
  | store (group : Option String) (name : String) (value : Value)
deriving DecidableEq, Repr

namespace Use

def group : Use → Option String
  | .touch group => group
  | .store group _ _ => group

/-- What a use stores in a group. -/
def storedIn? (group : Option String) : Use → Option (String × Value)
  | .touch _ => none
  | .store other name value => if other = group then some (name, value) else none

/-- The names and values stored in a group, in order. -/
def storedIn (group : Option String) (uses : List Use) : List (String × Value) :=
  uses.filterMap (storedIn? group)

theorem storedIn_concat (group : Option String) (uses : List Use) (use : Use) :
    storedIn group (uses ++ [use]) = storedIn group uses ++ (use.storedIn? group).toList := by
  rw [storedIn, storedIn, List.filterMap_append]
  cases found : use.storedIn? group <;> simp [found]

/-- Only a group that is used receives values. -/
theorem storedIn_of_notMem {group : Option String} {uses : List Use}
    (unused : group ∉ uses.map Use.group) : storedIn group uses = [] := by
  rw [storedIn, List.filterMap_eq_nil_iff]
  intro use member
  have other : use.group ≠ group := fun same => unused (List.mem_map.mpr ⟨use, member, same⟩)
  cases use with
  | touch => rfl
  | store => exact if_neg other

end Use

namespace Groups

/-- The value of a name in a group. -/
def value? (groups : Groups) (group : Option String) (name : String) : Option Value :=
  (groups.get? group).bind fun attributes => attributes.get? name

def use (groups : Groups) : Use → Groups
  | .touch group => groups.touch group
  | .store group name value => groups.store group name value

/-- The groups after some uses, when there were none before. -/
def ofUses (uses : List Use) : Groups :=
  uses.foldl use .empty

theorem ofUses_concat (uses : List Use) (u : Use) : ofUses (uses ++ [u]) = (ofUses uses).use u := by
  simp [ofUses]

theorem keys_use (groups : Groups) (u : Use) :
    (groups.use u).keys =
      if u.group ∈ groups.keys then groups.keys else groups.keys ++ [u.group] := by
  cases u with
  | touch group => exact keys_touch groups group
  | store group name value => exact keys_store groups group name value

/-- A use leaves the attributes of every other group alone. -/
theorem get?_use (groups : Groups) (u : Use) (group : Option String) :
    (groups.use u).get? group =
      if group = u.group then
        some (((u.storedIn? group).toList).foldl (fun attributes stored =>
          attributes.set stored.1 stored.2) ((groups.get? group).getD .empty))
      else groups.get? group := by
  cases u with
  | touch other =>
      rw [use, touch, Table.get?_alter]
      by_cases here : group = other
      · subst here
        simp [Use.group, Use.storedIn?]
      · simp [Use.group, here]
  | store other name value =>
      rw [use, get?_store]
      by_cases here : group = other
      · subst here
        simp [Use.group, Use.storedIn?]
      · simp [Use.group, here]

/-- Of all values, only the one that is stored changes. -/
theorem value?_store (groups : Groups) (group other : Option String) (name key : String)
    (value : Value) :
    (groups.store group name value).value? other key =
      if other = group ∧ key = name then some value else groups.value? other key := by
  rw [value?, get?_store]
  by_cases here : other = group
  · subst here
    rw [if_pos rfl, Option.bind_some, Table.get?_set]
    cases held : groups.get? other <;> simp [value?, held]
  · simp [here, value?]

theorem value?_touch (groups : Groups) (group other : Option String) (key : String) :
    (groups.touch group).value? other key = groups.value? other key := by
  rw [value?, touch, Table.get?_alter]
  by_cases here : other = group
  · subst here
    cases held : groups.get? other <;> simp [value?, held]
  · simp [here, value?]

/-- Without repeated groups, a name is found in the first group that holds it. -/
theorem find?_eq_findSome?_keys {groups : Groups} (nodup : groups.keys.Nodup) (name : String) :
    groups.find? name = groups.keys.findSome? fun group => groups.value? group name := by
  rw [find?, Table.keys, List.findSome?_map, ← List.head?_filterMap, ← List.head?_filterMap]
  apply congrArg
  apply List.filterMap_congr
  intro row member
  have here : groups.get? row.1 = some row.2 := (Table.get?_eq_some_iff nodup).mpr member
  simp [value?, here]

theorem keys_ofUses (uses : List Use) :
    (ofUses uses).keys = firstUses (uses.map Use.group) := by
  induction uses using List.reverseRecOn with
  | nil => rfl
  | append_singleton uses u ih =>
      rw [ofUses_concat, keys_use, ih, List.map_append, List.map_singleton, firstUses_concat]
      by_cases used : u.group ∈ uses.map Use.group <;> simp [used]

theorem nodup_keys_ofUses (uses : List Use) : (ofUses uses).keys.Nodup := by
  rw [keys_ofUses]
  exact nodup_firstUses _

/-- A group that was used holds the last value of every name stored in it. -/
theorem get?_ofUses (uses : List Use) (group : Option String) :
    (ofUses uses).get? group =
      if group ∈ uses.map Use.group then some (.ofLastValues (Use.storedIn group uses))
      else none := by
  induction uses using List.reverseRecOn with
  | nil => rfl
  | append_singleton uses u ih =>
      -- An unused group would hold what was stored in it so far, which is nothing.
      have held : ((ofUses uses).get? group).getD .empty =
          .ofLastValues (Use.storedIn group uses) := by
        rw [ih]
        split
        · rfl
        · next unused =>
          rw [Use.storedIn_of_notMem unused]
          rfl
      rw [ofUses_concat, get?_use, held, ih, Use.storedIn_concat]
      by_cases here : group = u.group
      · subst here
        cases stored : u.storedIn? u.group <;> simp [Table.ofLastValues_concat]
      · have nothing : u.storedIn? group = none := by
          cases u with
          | touch => rfl
          | store => exact if_neg (Ne.symm here)
        simp [here, nothing]

theorem value?_ofUses (uses : List Use) (group : Option String) (name : String) :
    (ofUses uses).value? group name = lastValue? (Use.storedIn group uses) name := by
  rw [value?, get?_ofUses]
  split
  · exact Table.get?_ofLastValues _ _
  · next unused =>
    rw [Use.storedIn_of_notMem unused]
    rfl

end Groups

namespace Response

/-- A response whose groups come from some uses. -/
def used (r : Response) (uses : List Use) : Response :=
  { r with groups := .ofUses uses }

/-- What a response knows of the uses that its groups come from. -/
structure Remembers (r : Response) (uses : List Use) : Prop where
  groups : r.groups.keys = firstUses (uses.map Use.group)
  once : r.groups.keys.Nodup
  named : ∀ name, r.group? name =
    if some name ∈ uses.map Use.group then some (.ofLastValues (Use.storedIn (some name) uses))
    else none
  unnamed : r.ungrouped? =
    if none ∈ uses.map Use.group then some (.ofLastValues (Use.storedIn none uses)) else none
  value : ∀ group name,
    r.groups.value? group name = lastValue? (Use.storedIn group uses) name
  found : ∀ name value, r.find? name = some value ↔
    ∃ before group after, firstUses (uses.map Use.group) = before ++ group :: after ∧
      (∀ other ∈ before, name ∉ (Use.storedIn other uses).map (·.1)) ∧
      lastValue? (Use.storedIn group uses) name = some value

theorem remembers_used (r : Response) (uses : List Use) : (r.used uses).Remembers uses where
  groups := Groups.keys_ofUses uses
  once := Groups.nodup_keys_ofUses uses
  named name := Groups.get?_ofUses uses (some name)
  unnamed := Groups.get?_ofUses uses none
  value := Groups.value?_ofUses uses
  found name value := by
    change (Groups.ofUses uses).find? name = some value ↔ _
    rw [Groups.find?_eq_findSome?_keys (Groups.nodup_keys_ofUses uses),
      List.findSome?_eq_some_iff, Groups.keys_ofUses]
    simp only [Groups.value?_ofUses, ← lastValue?_isSome_iff, Option.not_isSome_iff_eq_none]
    constructor
    · rintro ⟨before, group, after, split, here, none⟩
      exact ⟨before, group, after, split, none, here⟩
    · rintro ⟨before, group, after, split, none, here⟩
      exact ⟨before, group, after, split, here, none⟩

/-- The groups of a response are an ordered map of maps: they answer every look-up from the
history of their uses, later uses leave the groups where they are, and of the values only the
one that is stored changes. -/
theorem used_exact (r : Response) (uses : List Use) :
    (r.used uses).Remembers uses ∧
      (∀ more, (r.used uses).groups.keys <+: (r.used (uses ++ more)).groups.keys) ∧
      (∀ group other key,
        (r.used (uses ++ [.touch group])).groups.value? other key =
          (r.used uses).groups.value? other key) ∧
      ∀ group name value other key,
        (r.used (uses ++ [.store group name value])).groups.value? other key =
          if other = group ∧ key = name then some value
          else (r.used uses).groups.value? other key := by
  refine ⟨r.remembers_used uses, ?_, ?_, ?_⟩
  · intro more
    change (Groups.ofUses uses).keys <+: (Groups.ofUses (uses ++ more)).keys
    rw [Groups.keys_ofUses, Groups.keys_ofUses, List.map_append]
    exact firstUses_prefix_append _ _
  · intro group other key
    change (Groups.ofUses (uses ++ [.touch group])).value? other key = _
    rw [Groups.ofUses_concat]
    exact Groups.value?_touch _ _ _ _
  · intro group name value other key
    change (Groups.ofUses (uses ++ [.store group name value])).value? other key = _
    rw [Groups.ofUses_concat]
    exact Groups.value?_store _ _ _ _ _ _

/-- The group with the empty name is not the one without a name, and a group that was made
sure of before it has values keeps its place. -/
example :
    let groups := Groups.ofUses [.touch (some ""), .store none "copies" (.integer 1),
      .store (some "") "copies" (.integer 2), .touch none]
    groups.keys = [some "", none] ∧ groups.find? "copies" = some (.integer 2) := by
  decide

end Response

end InternetPrinting
