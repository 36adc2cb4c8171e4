import InternetPrinting.Proofs.Store.FirstUseOrder
import InternetPrinting.Proofs.Wire.Insertion

/-!
# Attributes as the history of insertions

As long as nothing is appended, attributes are a map that keeps the order in which its names
were first used. Inserting sets the values of a name, also to none at all: the name keeps its
place then and is not written. So every history of insertions leaves the last values of each
name and is forgotten otherwise, and insertions under different names change places freely but
for the order of names that are new.
-/

namespace InternetPrinting

open scoped List
open Text (utf8)

/-- One insertion under a name: of a single value, or of several or none. -/
inductive Insertion
  | single (name value : String)
  | several (name : String) (values : List String)
deriving DecidableEq, Repr

namespace Insertion

def name : Insertion → String
  | .single name _ => name
  | .several name _ => name

def values : Insertion → List String
  | .single _ value => [value]
  | .several _ values => values

/-- The row that an insertion asks for. -/
def row (i : Insertion) : String × List String :=
  (i.name, i.values)

/-- The names that are used, in order. -/
def names (history : List Insertion) : List String :=
  history.map name

/-- The last values of a name, if it is used. -/
def last? (history : List Insertion) (name : String) : Option (List String) :=
  lastValue? (history.map row) name

theorem map_fst_row (history : List Insertion) : (history.map row).map (·.1) = names history := by
  rw [List.map_map]
  rfl

theorem last?_concat (history : List Insertion) (i : Insertion) (name : String) :
    last? (history ++ [i]) name = if name = i.name then some i.values else last? history name := by
  rw [last?, List.map_append, List.map_singleton, lastValue?_concat]
  rfl

theorem last?_append (front back : List Insertion) (name : String) :
    last? (front ++ back) name = (last? back name).or (last? front name) := by
  rw [last?, List.map_append, lastValue?_append]
  rfl

/-- The insertion of each pair of a list, in order. -/
def each (pairs : List (String × String)) : List Insertion :=
  pairs.map fun pair => .single pair.1 pair.2

/-- The last values of each name, names in the order of first use. -/
def listing (history : List Insertion) : List (String × String) :=
  (firstUses (names history)).flatMap fun name =>
    ((last? history name).getD []).map (name, ·)

/-- Neighbours with different names have the same last values in either order. -/
theorem last?_swap {first second : Insertion} (apart : first.name ≠ second.name)
    (before after : List Insertion) (name : String) :
    last? (before ++ first :: second :: after) name =
      last? (before ++ second :: first :: after) name := by
  have pair : last? (before ++ [first] ++ [second]) name =
      last? (before ++ [second] ++ [first]) name := by
    rw [last?_concat, last?_concat, last?_concat, last?_concat]
    by_cases hit : name = first.name
    · have miss : name ≠ second.name := hit ▸ apart
      simp only [if_pos hit, if_neg miss]
    · simp only [if_neg hit]
  have split (i j : Insertion) : before ++ i :: j :: after = before ++ [i] ++ [j] ++ after := by
    simp
  rw [split, split, last?_append _ after, last?_append _ after, pair]

end Insertion

namespace RequestAttributes

/-- A table lists the values of each of its names. -/
theorem pairs_tabulate (names : List String)
    (values? : String → Option (List String)) :
    pairs (.tabulate names values?) =
      names.flatMap fun name => ((values? name).getD []).map (name, ·) := by
  induction names with
  | nil => rfl
  | cons first rest ih =>
      rw [List.flatMap_cons, ← ih]
      cases found : values? first with
      | none => rw [Table.tabulate_cons_of_none found]; rfl
      | some values => rw [Table.tabulate_cons_of_some found]; rfl

open Insertion (names last? listing)

def perform (attributes : RequestAttributes) : Insertion → RequestAttributes
  | .single name value => insert attributes name value
  | .several name values => insertMany attributes name values

/-- The attributes after some insertions, one after another. -/
def performAll (attributes : RequestAttributes) (insertions : List Insertion) :
    RequestAttributes :=
  insertions.foldl perform attributes

theorem perform_eq_set (attributes : RequestAttributes) (i : Insertion) :
    perform attributes i = attributes.set i.name i.values := by
  cases i <;> rfl

/-- Attributes that are collected from pairs come from the insertion of each. -/
theorem ofPairs_eq_performAll (pairs : List (String × String)) :
    ofPairs pairs = performAll .empty (Insertion.each pairs) := by
  rw [performAll, Insertion.each, List.foldl_map]
  rfl

/-- The last values of each name are what insertions leave. -/
theorem performAll_empty (history : List Insertion) :
    performAll .empty history = .ofLastValues (history.map Insertion.row) := by
  have sets : perform = fun attributes i => attributes.set i.name i.values := by
    funext attributes i
    exact perform_eq_set attributes i
  rw [← Table.ofList_eq_ofLastValues, Table.ofList, List.foldl_map, performAll, sets]
  rfl

theorem performAll_ofPairs (start : List (String × String)) (insertions : List Insertion) :
    performAll (ofPairs start) insertions =
      performAll .empty (Insertion.each start ++ insertions) := by
  rw [ofPairs_eq_performAll, performAll, performAll, performAll, List.foldl_append]

section History

variable (history : List Insertion)

theorem keys_performAll : (performAll .empty history).keys = firstUses (names history) := by
  rw [performAll_empty, Table.keys_ofLastValues, Insertion.map_fst_row]

theorem nodup_keys_performAll : (performAll .empty history).keys.Nodup := by
  rw [performAll_empty]
  exact Table.nodup_keys_ofLastValues _

theorem get?_performAll (name : String) :
    (performAll .empty history).get? name = last? history name := by
  rw [performAll_empty, Table.get?_ofLastValues]
  rfl

theorem mem_rows_performAll {row : String × List String} :
    row ∈ (performAll .empty history).rows ↔ last? history row.1 = some row.2 := by
  rw [← Table.get?_eq_some_iff (nodup_keys_performAll history), get?_performAll]

theorem pairs_performAll : pairs (performAll .empty history) = listing history := by
  rw [performAll_empty, Table.ofLastValues, pairs_tabulate, Insertion.map_fst_row]
  rfl

end History

/-- What attributes know of the insertions they come from. -/
structure Remembers (attributes : RequestAttributes) (history : List Insertion) : Prop where
  distinct : attributes.keys.Nodup
  order : attributes.keys = firstUses (names history)
  held : ∀ name, attributes.get? name = last? history name
  size : attributes.size = (names history).toFinset.card
  fits : ∀ r : Request, r.attributes = attributes →
    ((∃ message, r.encode = .ok message) ↔
      ∀ name values, last? history name = some values →
        (utf8 name).length ≤ 65535 ∧
          ∀ value ∈ values, (utf8 value).length ≤ 65535)
  written : ∀ (r : Request) (message : Bytes), r.attributes = attributes →
    r.encode = .ok message → Message.Carries message ((listing history).map entryOf)

theorem remembers_performAll (history : List Insertion) :
    (performAll .empty history).Remembers history where
  distinct := nodup_keys_performAll history
  order := keys_performAll history
  held := get?_performAll history
  size := by
    rw [← Table.length_keys, keys_performAll, length_firstUses]
  fits r comes := by
    constructor
    · rintro ⟨message, encoded⟩ name values held
      obtain ⟨short, -⟩ := Request.encode_eq_ok_iff.mp encoded
      rw [comes] at short
      exact tooLong?_eq_none_iff.mp short (name, values) ((mem_rows_performAll history).mpr held)
    · intro short
      refine ⟨_, Request.encode_eq_ok_iff.mpr ⟨?_, rfl⟩⟩
      rw [comes, tooLong?_eq_none_iff]
      intro row member
      exact short row.1 row.2 ((mem_rows_performAll history).mp member)
  written r message comes encoded := by
    obtain ⟨short, rfl⟩ := Request.encode_eq_ok_iff.mp encoded
    have carried := Request.carries_bytes short
    rwa [comes, pairs_performAll] at carried

/-- Neighbours with different names leave the same rows in either order. The order of the rows
is the same too, unless both names are new. -/
theorem performAll_swap {first second : Insertion} (apart : first.name ≠ second.name)
    (before after : List Insertion) :
    (performAll .empty (before ++ first :: second :: after)).rows.Perm
        (performAll .empty (before ++ second :: first :: after)).rows ∧
      (performAll .empty (before ++ first :: second :: after) =
          performAll .empty (before ++ second :: first :: after) ↔
        first.name ∈ names before ∨ second.name ∈ names before) := by
  have values (name : String) :
      (performAll .empty (before ++ first :: second :: after)).get? name =
        (performAll .empty (before ++ second :: first :: after)).get? name := by
    rw [get?_performAll, get?_performAll, Insertion.last?_swap apart]
  have keys (i j : Insertion) : (performAll .empty (before ++ i :: j :: after)).keys =
      firstUses (names before ++ i.name :: j.name :: names after) := by
    rw [keys_performAll, names, List.map_append]
    rfl
  constructor
  · exact Table.rows_perm_of_get? (nodup_keys_performAll _) (nodup_keys_performAll _) values
  · rw [← firstUses_swap_iff apart (names before) (names after), ← keys, ← keys]
    constructor
    · exact congrArg Table.keys
    · intro same
      exact Table.eq_of_keys_of_get? (nodup_keys_performAll _) same values

/-- Attributes that are collected from pairs and changed by insertions remember of each name
where it was first used and its last values, and these are what their message carries.
Collecting is inserting one by one. Insertions under different names may change places: the
rows stay the same, and so does their order unless both names are new. -/
theorem performAll_exact (start : List (String × String)) (insertions : List Insertion) :
    (performAll (ofPairs start) insertions).Remembers (Insertion.each start ++ insertions) ∧
      ofPairs start = performAll .empty (Insertion.each start) ∧
      ∀ before first second after, first.name ≠ second.name →
        insertions = before ++ first :: second :: after →
        (performAll (ofPairs start) insertions).rows.Perm
            (performAll (ofPairs start) (before ++ second :: first :: after)).rows ∧
          (performAll (ofPairs start) insertions =
              performAll (ofPairs start) (before ++ second :: first :: after) ↔
            first.name ∈ (performAll (ofPairs start) before).keys ∨
              second.name ∈ (performAll (ofPairs start) before).keys) := by
  simp only [performAll_ofPairs]
  refine ⟨remembers_performAll _, ofPairs_eq_performAll start, ?_⟩
  rintro before first second after apart rfl
  rw [keys_performAll, mem_firstUses, mem_firstUses, ← List.append_assoc, ← List.append_assoc]
  exact performAll_swap apart _ after

/-- A name that was emptied is not written, and is written again in the place that it kept. -/
example :
    let emptied := performAll (ofPairs [("copies", "1"), ("media", "a4"), ("copies", "2")])
      [.several "copies" []]
    emptied.get? "copies" = some [] ∧ pairs emptied = [("media", "a4")] ∧
      pairs (perform emptied (.single "copies" "3")) = [("copies", "3"), ("media", "a4")] := by
  decide

end RequestAttributes

end InternetPrinting
