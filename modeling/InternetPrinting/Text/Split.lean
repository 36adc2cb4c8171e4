/-!
# Parting a text at a mark

The characters before the first occurrence of a mark, those behind it, and all
the parts between its occurrences.
-/

namespace InternetPrinting.Text

/-- The characters before the first occurrence of a mark, all of them if it
does not occur. -/
def before (mark : Char) (cs : List Char) : List Char :=
  cs.takeWhile (· ≠ mark)

/-- The characters behind the first occurrence of a mark. -/
def behind (mark : Char) (cs : List Char) : List Char :=
  (cs.dropWhile (· ≠ mark)).drop 1

/-- The parts between the occurrences of a mark. -/
def parts (mark : Char) : List Char → List (List Char)
  | [] => [[]]
  | c :: rest =>
    if c = mark then [] :: parts mark rest
    else
      match parts mark rest with
      | [] => [[c]]
      | part :: others => (c :: part) :: others

theorem before_append_behind {mark : Char} {cs : List Char} (h : mark ∈ cs) :
    before mark cs ++ mark :: behind mark cs = cs := by
  induction cs with
  | nil => cases h
  | cons c rest ih =>
      by_cases same : c = mark
      · simp [before, behind, same]
      · have later : mark ∈ rest := by
          cases List.mem_cons.mp h with
          | inl here => exact absurd here.symm same
          | inr there => exact there
        simpa [before, behind, same] using ih later

theorem parts_ne_nil (mark : Char) (cs : List Char) : parts mark cs ≠ [] := by
  cases cs with
  | nil => simp [parts]
  | cons c rest =>
      simp only [parts]
      split
      · simp
      · split <;> simp

end InternetPrinting.Text
