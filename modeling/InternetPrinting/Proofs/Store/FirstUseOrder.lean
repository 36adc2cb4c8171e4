import InternetPrinting.Proofs.Store.LastWrites
import Mathlib.Data.Finset.Card
import Mathlib.Data.List.Sort

/-!
# The order of first use

In a list without repetitions one key stands before another if the two in this order are
a part of the list. Of keys by first use, one stands before another exactly if it is used
before the other is. A list of keys keeps the order of a longer one exactly if no two keys
have changed places.
-/

namespace InternetPrinting

open scoped List

variable {κ : Type} {l m : List κ} {a b : κ}

/-- Two keys cannot stand before each other. -/
theorem not_sublist_swap (nodup : l.Nodup) (order : [a, b] <+ l) : ¬ [b, a] <+ l := by
  induction l with
  | nil => cases order
  | cons key rest ih =>
      obtain ⟨unused, tail⟩ := List.nodup_cons.mp nodup
      intro swapped
      cases order with
      | cons _ order =>
          cases swapped with
          | cons _ swapped => exact ih tail order swapped
          | cons_cons _ last => exact unused (order.subset (by simp))
      | cons_cons _ last =>
          cases swapped with
          | cons _ swapped => exact unused (swapped.subset (by simp))
          | cons_cons _ other => exact unused (List.singleton_sublist.mp last)

/-- Nothing stands before the first key. -/
theorem not_pair_sublist_of_notMem_tail (first : b ∉ l.tail) : ¬ [a, b] <+ l := by
  intro order
  cases order with
  | cons _ order => exact first (order.subset (by simp))
  | cons_cons _ last => exact first (List.singleton_sublist.mp last)

/-- Of two keys one stands before the other. -/
theorem sublist_or_swap (first : a ∈ l) (second : b ∈ l) (apart : a ≠ b) :
    [a, b] <+ l ∨ [b, a] <+ l := by
  induction l with
  | nil => cases first
  | cons key rest ih =>
      rcases List.mem_cons.mp first with rfl | behind
      · have later := (List.mem_cons.mp second).resolve_left (Ne.symm apart)
        exact .inl (.cons_cons _ (List.singleton_sublist.mpr later))
      · rcases List.mem_cons.mp second with rfl | second
        · exact .inr (.cons_cons _ (List.singleton_sublist.mpr behind))
        · exact (ih behind second).imp (.cons _) (.cons _)

/-- Keys keep the order of a longer list exactly if no two of them have changed places. -/
theorem sublist_iff_not_swapped (left : l.Nodup) (right : m.Nodup) (subset : l ⊆ m) :
    l <+ m ↔ ∀ a b, [a, b] <+ m → ¬ [b, a] <+ l := by
  constructor
  · intro kept a b order swapped
    exact not_sublist_swap right order (swapped.trans kept)
  · intro same
    -- The order of the longer list as a relation.
    have antisymm : Std.Antisymm fun a b : κ => [a, b] <+ m :=
      ⟨fun a b order swapped => absurd swapped (not_sublist_swap right order)⟩
    have ordered : m.Pairwise fun a b => [a, b] <+ m :=
      List.pairwise_iff_forall_sublist.mpr fun order => order
    refine List.sublist_of_subperm_of_pairwise (List.subperm_of_subset left subset) ?_ ordered
    rw [List.pairwise_iff_forall_sublist]
    intro a b order
    have apart : a ≠ b := by simpa using left.sublist order
    have first : a ∈ m := subset (order.subset (by simp))
    have second : b ∈ m := subset (order.subset (by simp))
    refine (sublist_or_swap first second apart).resolve_right fun swapped => ?_
    exact same b a swapped order

section Search

variable {ν : Type} {f : κ → Option ν}

/-- Keys that yield nothing do not matter to a search. -/
theorem findSome?_eq_of_sublist (nodup : m.Nodup) (kept : l <+ m)
    (nothing : ∀ key ∈ m, key ∉ l → f key = none) : m.findSome? f = l.findSome? f := by
  induction kept with
  | slnil => rfl
  | @cons l m key kept ih =>
      obtain ⟨unused, tail⟩ := List.nodup_cons.mp nodup
      have skipped : f key = none := nothing key (by simp) fun used => unused (kept.subset used)
      rw [List.findSome?_cons_of_isNone (by simp [skipped])]
      exact ih tail fun other member => nothing other (List.mem_cons_of_mem _ member)
  | @cons_cons l m key kept ih =>
      obtain ⟨unused, tail⟩ := List.nodup_cons.mp nodup
      rw [List.findSome?_cons, List.findSome?_cons, ih tail]
      intro other member absent
      apply nothing other (List.mem_cons_of_mem _ member)
      rintro (_ | _)
      · exact unused member
      · exact absent ‹_›

end Search

section FirstUses

variable [DecidableEq κ]

/-- A key that is used before another comes before it. -/
theorem pair_sublist_firstUses {front back : List κ} (unused : b ∉ front) (apart : a ≠ b)
    (later : b ∈ back) : [a, b] <+ firstUses (front ++ a :: back) := by
  have split : front ++ a :: back = (front ++ [a]) ++ back := by simp
  have first : a ∈ firstUses (front ++ [a]) := by simp
  have second : b ∈ firstUses (back.removeAll (front ++ [a])) := by
    rw [mem_firstUses, List.removeAll, List.mem_filter]
    refine ⟨later, ?_⟩
    simp [unused, Ne.symm apart]
  rw [split, firstUses_append]
  exact (List.singleton_sublist.mpr first).append (List.singleton_sublist.mpr second)

/-- A key that comes before another is used before it. -/
theorem exists_front_of_pair_sublist (order : [a, b] <+ firstUses l) :
    ∃ front back, l = front ++ a :: back ∧ a ∉ front ∧ b ∉ front ∧ b ∈ back := by
  have nodup : (firstUses l).Nodup := nodup_firstUses l
  have apart : a ≠ b := by simpa using nodup.sublist order
  have first : a ∈ l := mem_firstUses.mp (order.subset (by simp))
  have second : b ∈ l := mem_firstUses.mp (order.subset (by simp))
  obtain ⟨front, back, rfl, unused⟩ := List.eq_append_cons_of_mem first
  by_cases before : b ∈ front
  · -- Then the other key would be the one that comes first.
    obtain ⟨start, rest, rfl, -⟩ := List.eq_append_cons_of_mem before
    have missing : a ∉ start := fun used => unused (by simp [used])
    have swapped : [b, a] <+ firstUses (start ++ b :: (rest ++ a :: back)) :=
      pair_sublist_firstUses missing (Ne.symm apart) (by simp)
    rw [List.append_assoc, List.cons_append] at order
    exact absurd order (not_sublist_swap (nodup_firstUses _) swapped)
  · have behind : b ∈ back := by simpa [before, Ne.symm apart] using second
    exact ⟨front, back, rfl, unused, before, behind⟩

/-- Neighbours change places in the order of first use, unless one of them is used before. -/
theorem firstUses_swap_iff (apart : a ≠ b) (front back : List κ) :
    firstUses (front ++ a :: b :: back) = firstUses (front ++ b :: a :: back) ↔
      a ∈ front ∨ b ∈ front := by
  constructor
  · intro same
    by_contra unused
    obtain ⟨first, second⟩ := not_or.mp unused
    have order : [a, b] <+ firstUses (front ++ a :: b :: back) :=
      pair_sublist_firstUses second apart List.mem_cons_self
    have swapped : [b, a] <+ firstUses (front ++ b :: a :: back) :=
      pair_sublist_firstUses first (Ne.symm apart) List.mem_cons_self
    rw [← same] at swapped
    exact not_sublist_swap (nodup_firstUses _) order swapped
  · intro used
    rw [firstUses_append, firstUses_append]
    rcases used with used | used <;> simp [List.removeAll, List.filter_cons, used]

/-- The names in use are counted by their first uses. -/
theorem length_firstUses (keys : List κ) :
    (firstUses keys).length = keys.toFinset.card := by
  have same : (firstUses keys).toFinset = keys.toFinset := by
    ext key
    simp
  rw [← same, List.toFinset_card_of_nodup (nodup_firstUses keys)]

end FirstUses

end InternetPrinting
