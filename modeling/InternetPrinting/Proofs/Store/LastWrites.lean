import InternetPrinting.Table
import Mathlib.Data.List.Induction
import Mathlib.Data.List.Nodup

/-!
# Tables as the last writes to them

A table whose keys are set one after another is determined by the list of
writes: it has one row for each key that was written, in the order of the first
writes, and the row holds the value of the last write. The reading is given
here without any table being changed, and setting is shown to agree with it.

## Implementation notes

Two tables without repeated keys are equal once their keys and their values
agree, so each equation below is proved by comparing these two views.
-/

namespace InternetPrinting

variable {κ ν : Type} [DecidableEq κ]

/-- Each key once, in the order of first use. -/
def firstUses (keys : List κ) : List κ :=
  keys.eraseDups

@[simp] theorem firstUses_nil : firstUses ([] : List κ) = [] := rfl

@[simp] theorem mem_firstUses {keys : List κ} {key : κ} : key ∈ firstUses keys ↔ key ∈ keys :=
  List.mem_eraseDups

theorem firstUses_append (front back : List κ) :
    firstUses (front ++ back) = firstUses front ++ firstUses (back.removeAll front) :=
  List.eraseDups_append

/-- A key used before changes nothing, a new one comes last. -/
theorem firstUses_concat (keys : List κ) (key : κ) :
    firstUses (keys ++ [key]) =
      if key ∈ keys then firstUses keys else firstUses keys ++ [key] := by
  rw [firstUses_append]
  by_cases used : key ∈ keys
  · simp [List.removeAll, used]
  · simp [List.removeAll, used, firstUses, List.eraseDups_cons]

/-- A new key used several times in a row comes last, once. -/
theorem firstUses_append_replicate {keys : List κ} {key : κ} (unused : key ∉ keys) {n : Nat}
    (many : n ≠ 0) : firstUses (keys ++ List.replicate n key) = firstUses keys ++ [key] := by
  obtain ⟨n, rfl⟩ := Nat.exists_eq_succ_of_ne_zero many
  have apart : (List.replicate (n + 1) key).removeAll keys = List.replicate (n + 1) key := by
    rw [List.removeAll, List.filter_eq_self]
    intro other member
    rw [List.eq_of_mem_replicate member]
    simpa using unused
  rw [firstUses_append, apart]
  simp [List.replicate_succ, firstUses, List.eraseDups_cons]

theorem nodup_firstUses (keys : List κ) : (firstUses keys).Nodup := by
  induction keys using List.reverseRecOn with
  | nil => exact List.nodup_nil
  | append_singleton keys key ih =>
      rw [firstUses_concat]
      split
      · exact ih
      · next unused =>
        rw [← List.concat_eq_append]
        exact ih.concat fun used => unused (mem_firstUses.mp used)

/-- The value of the last pair with a key. -/
def lastValue? (pairs : List (κ × ν)) (key : κ) : Option ν :=
  (pairs.reverse.find? fun pair => pair.1 = key).map (·.2)

@[simp] theorem lastValue?_nil (key : κ) : lastValue? ([] : List (κ × ν)) key = none := rfl

theorem lastValue?_concat (pairs : List (κ × ν)) (pair : κ × ν) (key : κ) :
    lastValue? (pairs ++ [pair]) key =
      if key = pair.1 then some pair.2 else lastValue? pairs key := by
  by_cases hit : key = pair.1
  · simp [lastValue?, hit]
  · simp [lastValue?, hit, Ne.symm hit]

/-- Pairs that come later override those with the same key. -/
theorem lastValue?_append (front back : List (κ × ν)) (key : κ) :
    lastValue? (front ++ back) key = (lastValue? back key).or (lastValue? front key) := by
  simp only [lastValue?, List.reverse_append, List.find?_append, Option.map_or]

/-- Changing every value changes the last ones. -/
theorem lastValue?_map {μ : Type} (f : ν → μ) (pairs : List (κ × ν)) (key : κ) :
    lastValue? (pairs.map fun pair => (pair.1, f pair.2)) key =
      (lastValue? pairs key).map f := by
  induction pairs using List.reverseRecOn with
  | nil => rfl
  | append_singleton pairs pair ih =>
      rw [List.map_append, List.map_singleton, lastValue?_concat, lastValue?_concat, ih]
      split <;> rfl

/-- The last value of a key is the last of its values. -/
theorem lastValue?_eq_getLast? (pairs : List (κ × ν)) (key : κ) :
    lastValue? pairs key = ((pairs.filter fun pair => pair.1 = key).map (·.2)).getLast? := by
  rw [lastValue?, List.getLast?_map, List.getLast?_eq_head?_reverse, ← List.filter_reverse,
    List.head?_filter]

/-- Exactly the keys of the pairs have a last value. -/
theorem lastValue?_isSome_iff {pairs : List (κ × ν)} {key : κ} :
    (lastValue? pairs key).isSome ↔ key ∈ pairs.map (·.1) := by
  induction pairs using List.reverseRecOn with
  | nil => simp
  | append_singleton pairs pair ih =>
      rw [lastValue?_concat]
      by_cases hit : key = pair.1
      · simp [hit]
      · rw [if_neg hit, ih]
        simp [hit]

namespace Table

theorem get?_cons (row : κ × ν) (rest : List (κ × ν)) (key : κ) :
    (⟨row :: rest⟩ : Table κ ν).get? key =
      if row.1 = key then some row.2 else (⟨rest⟩ : Table κ ν).get? key := by
  by_cases hit : row.1 = key <;> simp [Table.get?, hit]

/-- Without repeated keys, the value of a key is the one in its row. -/
theorem get?_eq_some_iff {t : Table κ ν} (nodup : t.keys.Nodup) {key : κ} {value : ν} :
    t.get? key = some value ↔ (key, value) ∈ t.rows := by
  obtain ⟨rows⟩ := t
  induction rows with
  | nil => simp [Table.get?]
  | cons row rest ih =>
      obtain ⟨unused, tail⟩ := List.nodup_cons.mp nodup
      rw [get?_cons, List.mem_cons]
      by_cases hit : row.1 = key
      · subst hit
        have absent : (row.1, value) ∉ rest := fun later =>
          unused (List.mem_map.mpr ⟨_, later, rfl⟩)
        simp [absent, Prod.ext_iff, eq_comm]
      · have apart : (key, value) ≠ row := fun same => hit (congrArg Prod.fst same).symm
        rw [if_neg hit, ih tail]
        simp [apart]

/-- The order of the rows does not matter to the values. -/
theorem get?_eq_of_perm {t u : Table κ ν} (nodup : t.keys.Nodup) (perm : t.rows.Perm u.rows)
    (key : κ) : t.get? key = u.get? key := by
  have keys : t.keys.Perm u.keys := perm.map _
  have nodup' : u.keys.Nodup := keys.nodup nodup
  apply Option.ext
  intro value
  rw [get?_eq_some_iff nodup, get?_eq_some_iff nodup']
  exact perm.mem_iff

/-- The table with a row for each of the keys that has a value. -/
def tabulate (keys : List κ) (value? : κ → Option ν) : Table κ ν :=
  ⟨keys.filterMap fun key => (value? key).map fun value => (key, value)⟩

omit [DecidableEq κ] in
theorem tabulate_cons_of_some {first : κ} {rest : List κ} {value? : κ → Option ν} {value : ν}
    (found : value? first = some value) :
    tabulate (first :: rest) value? = ⟨(first, value) :: (tabulate rest value?).rows⟩ := by
  simp [tabulate, found]

omit [DecidableEq κ] in
theorem tabulate_cons_of_none {first : κ} {rest : List κ} {value? : κ → Option ν}
    (missing : value? first = none) :
    tabulate (first :: rest) value? = tabulate rest value? := by
  simp [tabulate, missing]

omit [DecidableEq κ] in
theorem keys_tabulate {keys : List κ} {value? : κ → Option ν}
    (all : ∀ key ∈ keys, (value? key).isSome) : (tabulate keys value?).keys = keys := by
  induction keys with
  | nil => rfl
  | cons first rest ih =>
      obtain ⟨value, found⟩ := Option.isSome_iff_exists.mp (all first (by simp))
      rw [tabulate_cons_of_some found]
      exact congrArg (first :: ·) (ih fun key later => all key (by simp [later]))

theorem get?_tabulate (keys : List κ) (value? : κ → Option ν) (key : κ) :
    (tabulate keys value?).get? key = if key ∈ keys then value? key else none := by
  induction keys with
  | nil => rfl
  | cons first rest ih =>
      cases found : value? first with
      | none =>
          rw [tabulate_cons_of_none found, ih]
          by_cases hit : key = first
          · simp [hit, found]
          · simp [hit]
      | some value =>
          rw [tabulate_cons_of_some found, get?_cons]
          by_cases hit : key = first
          · simp [hit, found]
          · simp [hit, Ne.symm hit, ih]

/-- A table without repeated keys holds nothing but the values of its keys. -/
theorem tabulate_keys_get? {t : Table κ ν} (nodup : t.keys.Nodup) :
    tabulate t.keys t.get? = t := by
  obtain ⟨rows⟩ := t
  induction rows with
  | nil => rfl
  | cons row rest ih =>
      obtain ⟨unused, tail⟩ := List.nodup_cons.mp nodup
      have here : (⟨row :: rest⟩ : Table κ ν).get? row.1 = some row.2 := by simp [get?_cons]
      have skip : tabulate (rest.map (·.1)) (⟨row :: rest⟩ : Table κ ν).get? =
          tabulate (rest.map (·.1)) (⟨rest⟩ : Table κ ν).get? := by
        refine congrArg Table.mk (List.filterMap_congr fun key later => ?_)
        have apart : row.1 ≠ key := by
          rintro rfl
          exact unused later
        rw [get?_cons, if_neg apart]
      change tabulate (row.1 :: rest.map (·.1)) _ = _
      rw [tabulate_cons_of_some here, skip]
      exact congrArg (fun t : Table κ ν => (⟨row :: t.rows⟩ : Table κ ν)) (ih tail)

/-- Without repeated keys, keys and values are all there is to a table. -/
theorem eq_of_keys_of_get? {t u : Table κ ν} (nodup : t.keys.Nodup) (keys : t.keys = u.keys)
    (values : ∀ key, t.get? key = u.get? key) : t = u := by
  calc
    t = tabulate t.keys t.get? := (tabulate_keys_get? nodup).symm
    _ = tabulate u.keys u.get? := by rw [keys, funext values]
    _ = u := tabulate_keys_get? (keys ▸ nodup)

/-- With the same values, tables without repeated keys differ in the order of their rows
alone. -/
theorem rows_perm_of_get? {t u : Table κ ν} (left : t.keys.Nodup) (right : u.keys.Nodup)
    (values : ∀ key, t.get? key = u.get? key) : t.rows.Perm u.rows := by
  rw [List.perm_ext_iff_of_nodup left.of_map right.of_map]
  rintro ⟨key, value⟩
  rw [← get?_eq_some_iff left, ← get?_eq_some_iff right, values]

theorem alterRows_of_notMem {key : κ} {rows : List (κ × ν)} (change : Option ν → ν)
    (unused : key ∉ rows.map (·.1)) :
    alterRows key change rows = rows ++ [(key, change none)] := by
  induction rows with
  | nil => rfl
  | cons row rest ih =>
      simp only [List.map_cons, List.mem_cons, not_or] at unused
      rw [alterRows, if_neg (Ne.symm unused.1), ih unused.2, List.cons_append]

/-- A new key gets a row at the end. -/
theorem set_of_notMem {t : Table κ ν} {key : κ} (value : ν) (unused : key ∉ t.keys) :
    t.set key value = ⟨t.rows ++ [(key, value)]⟩ :=
  congrArg Table.mk (alterRows_of_notMem _ unused)

/-- The table that holds for each key of the pairs the last of its values. -/
def ofLastValues (pairs : List (κ × ν)) : Table κ ν :=
  tabulate (firstUses (pairs.map (·.1))) (lastValue? pairs)

theorem keys_ofLastValues (pairs : List (κ × ν)) :
    (ofLastValues pairs).keys = firstUses (pairs.map (·.1)) := by
  apply keys_tabulate
  intro key used
  exact lastValue?_isSome_iff.mpr (mem_firstUses.mp used)

theorem nodup_keys_ofLastValues (pairs : List (κ × ν)) : (ofLastValues pairs).keys.Nodup := by
  rw [keys_ofLastValues]
  exact nodup_firstUses _

theorem get?_ofLastValues (pairs : List (κ × ν)) (key : κ) :
    (ofLastValues pairs).get? key = lastValue? pairs key := by
  rw [ofLastValues, get?_tabulate]
  split
  · rfl
  · next unused =>
    have missing : ¬ (lastValue? pairs key).isSome := by
      intro found
      exact unused (mem_firstUses.mpr (lastValue?_isSome_iff.mp found))
    exact (Option.not_isSome_iff_eq_none.mp missing).symm

/-- One more write sets its key. -/
theorem ofLastValues_concat (pairs : List (κ × ν)) (pair : κ × ν) :
    ofLastValues (pairs ++ [pair]) = (ofLastValues pairs).set pair.1 pair.2 := by
  apply eq_of_keys_of_get? (nodup_keys_ofLastValues _)
  · rw [keys_set, keys_ofLastValues, keys_ofLastValues, List.map_append, List.map_singleton,
      firstUses_concat]
    simp only [mem_firstUses]
  · intro key
    rw [get?_set, get?_ofLastValues, get?_ofLastValues, lastValue?_concat]

/-- Setting keys one after another leaves the last value of each. -/
theorem ofList_eq_ofLastValues (pairs : List (κ × ν)) : ofList pairs = ofLastValues pairs := by
  induction pairs using List.reverseRecOn with
  | nil => rfl
  | append_singleton pairs pair ih =>
      rw [ofLastValues_concat, ← ih]
      simp [ofList]

/-- The rows of a table without repeated keys, written in order, give the table. -/
theorem ofLastValues_rows {t : Table κ ν} (nodup : t.keys.Nodup) : ofLastValues t.rows = t := by
  obtain ⟨rows⟩ := t
  induction rows using List.reverseRecOn with
  | nil => rfl
  | append_singleton rows row ih =>
      have apart : (rows.map (·.1) ++ [row.1]).Nodup := by
        simpa only [Table.keys, List.map_append, List.map_singleton] using nodup
      obtain ⟨front, _, unused⟩ := List.nodup_append.mp apart
      rw [ofLastValues_concat, ih front]
      exact set_of_notMem row.2 fun used => unused row.1 used row.1 (by simp) rfl

end Table

end InternetPrinting
