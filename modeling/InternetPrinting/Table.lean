/-!
# Tables in order of first use

A table is a list of rows, each a key and its value. A key is looked up in its
first row. Changing the value of a key keeps the row where it is and leaves
the others alone; a new key gets a row at the end.
-/

namespace InternetPrinting

variable {κ ν : Type} [DecidableEq κ]

/-- Rows of keys and values in order. -/
structure Table (κ ν : Type) where
  rows : List (κ × ν)
deriving DecidableEq, Repr

namespace Table

/-- The table without rows. -/
def empty : Table κ ν := ⟨[]⟩

/-- The keys in the order of the rows. -/
def keys (t : Table κ ν) : List κ :=
  t.rows.map (·.1)

/-- The number of rows. -/
def size (t : Table κ ν) : Nat :=
  t.rows.length

def isEmpty (t : Table κ ν) : Bool :=
  t.rows.isEmpty

/-- The value in the first row of the key. -/
def get? (t : Table κ ν) (key : κ) : Option ν :=
  (t.rows.find? fun row => row.1 = key).map (·.2)

/-- The rows with the first one of the key changed, or with a row for the key
at the end. -/
def alterRows (key : κ) (change : Option ν → ν) : List (κ × ν) → List (κ × ν)
  | [] => [(key, change none)]
  | row :: rest =>
    if row.1 = key then (row.1, change (some row.2)) :: rest
    else row :: alterRows key change rest

/-- Give the key a value that may depend on the one it has. -/
def alter (t : Table κ ν) (key : κ) (change : Option ν → ν) : Table κ ν :=
  ⟨alterRows key change t.rows⟩

/-- Give the key a value. -/
def set (t : Table κ ν) (key : κ) (value : ν) : Table κ ν :=
  t.alter key fun _ => value

/-- The rows of both tables, those of the first one in front. Keys that occur
in both keep both rows. -/
def append (t u : Table κ ν) : Table κ ν :=
  ⟨t.rows ++ u.rows⟩

/-- Set the keys of a list to their values one after another. -/
def ofList (rows : List (κ × ν)) : Table κ ν :=
  rows.foldl (fun t row => t.set row.1 row.2) empty

@[simp] theorem get?_empty (key : κ) : (empty : Table κ ν).get? key = none := rfl

theorem find?_alterRows (key other : κ) (change : Option ν → ν) (rows : List (κ × ν)) :
    ((alterRows key change rows).find? fun row => row.1 = other).map (·.2) =
      if other = key then some (change ((rows.find? fun row => row.1 = key).map (·.2)))
      else (rows.find? fun row => row.1 = other).map (·.2) := by
  induction rows with
  | nil =>
      by_cases h : other = key
      · simp [alterRows, h]
      · simp [alterRows, h, Ne.symm h]
  | cons row rest ih =>
      by_cases here : row.1 = key
      · by_cases h : other = key
        · simp [alterRows, here, h]
        · simp [alterRows, here, h, Ne.symm h]
      · rw [alterRows, if_neg here, List.find?_cons, List.find?_cons, List.find?_cons,
          decide_eq_false here]
        by_cases hit : row.1 = other
        · have h : other ≠ key := fun same => here (hit.trans same)
          simp [hit, h]
        · rw [decide_eq_false hit]
          exact ih

/-- Only the altered key has another value afterwards. -/
theorem get?_alter (t : Table κ ν) (key other : κ) (change : Option ν → ν) :
    (t.alter key change).get? other =
      if other = key then some (change (t.get? key)) else t.get? other :=
  find?_alterRows key other change t.rows

theorem get?_set (t : Table κ ν) (key other : κ) (value : ν) :
    (t.set key value).get? other = if other = key then some value else t.get? other :=
  get?_alter t key other _

theorem map_fst_alterRows (key : κ) (change : Option ν → ν) (rows : List (κ × ν)) :
    (alterRows key change rows).map (·.1) =
      if key ∈ rows.map (·.1) then rows.map (·.1) else rows.map (·.1) ++ [key] := by
  induction rows with
  | nil => simp [alterRows]
  | cons row rest ih =>
      by_cases here : row.1 = key
      · simp [alterRows, here]
      · simp only [alterRows, if_neg here, List.map_cons, ih, List.mem_cons, Ne.symm here,
          false_or]
        by_cases later : key ∈ rest.map (·.1)
        · simp [later]
        · simp [later]

/-- A known key keeps its place, a new one comes last. -/
theorem keys_alter (t : Table κ ν) (key : κ) (change : Option ν → ν) :
    (t.alter key change).keys = if key ∈ t.keys then t.keys else t.keys ++ [key] :=
  map_fst_alterRows key change t.rows

theorem keys_set (t : Table κ ν) (key : κ) (value : ν) :
    (t.set key value).keys = if key ∈ t.keys then t.keys else t.keys ++ [key] :=
  keys_alter t key _

end Table

end InternetPrinting
