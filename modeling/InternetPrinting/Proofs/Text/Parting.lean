import InternetPrinting.Text.Split

/-!
# Parting what was joined

A mark that does not occur in a text parts nothing in it, so the first mark
behind the text is where it ends. Texts that were joined by a mark none of them
holds are the parts again.
-/

namespace InternetPrinting.Text

variable {mark : Char} {cs front : List Char}

theorem parts_eq_splitOn (mark : Char) (cs : List Char) : parts mark cs = cs.splitOn mark := by
  induction cs with
  | nil => rfl
  | cons c rest ih =>
      rw [parts, List.splitOn_cons_eq_if_modifyHead, ← ih]
      by_cases same : c = mark
      · rw [if_pos same, if_pos (beq_iff_eq.mpr same)]
      · rw [if_neg same, if_neg (by simpa using same)]
        cases split : parts mark rest with
        | nil => exact absurd split (parts_ne_nil mark rest)
        | cons part others => rfl

/-- A text without the mark is its only part. -/
theorem parts_of_notMem (absent : mark ∉ cs) : parts mark cs = [cs] := by
  rw [parts_eq_splitOn]
  exact List.splitOn_eq_singleton absent

/-- Texts without the mark are the parts of what the mark joins them to. -/
theorem parts_intercalate {texts : List (List Char)} (absent : ∀ text ∈ texts, mark ∉ text)
    (filled : texts ≠ []) : parts mark ([mark].intercalate texts) = texts := by
  rw [parts_eq_splitOn]
  exact List.splitOn_intercalate mark absent filled

/-- What stands in front of a mark ends where the first one comes. -/
theorem takeWhile_dropWhile_append_cons {α : Type} [DecidableEq α] {mark : α} {front : List α}
    (absent : mark ∉ front) (back : List α) :
    (front ++ mark :: back).takeWhile (· ≠ mark) = front ∧
      (front ++ mark :: back).dropWhile (· ≠ mark) = mark :: back := by
  have stays : ∀ a ∈ front, decide (a ≠ mark) = true := by
    intro a member
    exact decide_eq_true (ne_of_mem_of_not_mem member absent)
  constructor
  · rw [List.takeWhile_append_of_pos stays, List.takeWhile_cons_of_neg (by simp), List.append_nil]
  · rw [List.dropWhile_append_of_pos stays, List.dropWhile_cons_of_neg (by simp)]

/-- The first mark parts a text that has none before it. -/
theorem before_behind_append_cons (absent : mark ∉ front) (back : List Char) :
    before mark (front ++ mark :: back) = front ∧ behind mark (front ++ mark :: back) = back := by
  obtain ⟨taken, dropped⟩ := takeWhile_dropWhile_append_cons absent back
  rw [before, behind, taken, dropped]
  exact ⟨rfl, rfl⟩

end InternetPrinting.Text
