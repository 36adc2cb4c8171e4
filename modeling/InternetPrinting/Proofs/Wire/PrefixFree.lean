import InternetPrinting.Proofs.Wire.Grammar

/-!
# Where an entry ends

Each tag and each length settles where an entry ends, so no spelled entry stands
at the front of a longer one. Two consequences are drawn here. A section of
entries before an end tag can be read in one way only, whatever bytes the names,
the values and the payload hold. And the loop refuses what is left of an entry
that was cut, since nothing shorter could have been meant.
-/

namespace InternetPrinting

namespace Entry

variable {first other rest more : Bytes} {entry entry' : Entry}

/-- At the front of any bytes at most one entry is spelled, and in one way. -/
theorem Spells.unique (here : Spells first entry) (there : Spells other entry')
    (same : first ++ rest = other ++ more) : first = other ∧ entry = entry' ∧ rest = more := by
  obtain ⟨tag, body, rfl, notEnd⟩ := here.exists_cons
  obtain ⟨tag', body', rfl, -⟩ := there.exists_cons
  obtain ⟨rfl, behind⟩ : tag = tag' ∧ body ++ rest = body' ++ more := by simpa using same
  -- Behind the tag both entries are what the reader finds there.
  have one : read tag ⟨body ++ rest, 0⟩ = .ok (entry, ⟨rest, body.length⟩) := by
    apply (read_eq_ok_iff notEnd).mpr
    exact ⟨body, here, rfl, (Nat.zero_add _).symm⟩
  have two : read tag ⟨body ++ rest, 0⟩ = .ok (entry', ⟨more, body'.length⟩) := by
    apply (read_eq_ok_iff notEnd).mpr
    exact ⟨body', there, behind, (Nat.zero_add _).symm⟩
  rw [one, Except.ok.injEq, Prod.mk.injEq, Cursor.mk.injEq] at two
  obtain ⟨rfl, rfl, -⟩ := two
  rw [List.append_cancel_right behind]
  exact ⟨rfl, rfl, rfl⟩

/-- No spelled entry stands at the front of a longer one. -/
theorem Spells.eq_of_prefix (here : Spells first entry) (there : Spells other entry')
    (front : first <+: other) : first = other := by
  obtain ⟨rest, rfl⟩ := front
  have same : first ++ rest = first ++ rest ++ [] := (List.append_nil _).symm
  exact (here.unique there same).1

/-- Pieces that spell one entry each spell the entries one after another. -/
theorem SpellsAll.of_pieces {pieces : List (Bytes × Entry)}
    (spelled : ∀ piece ∈ pieces, Spells piece.1 piece.2) :
    SpellsAll (pieces.flatMap (·.1)) (pieces.map (·.2)) := by
  induction pieces with
  | nil => exact .nil
  | cons piece rest ih =>
      rw [List.flatMap_cons, List.map_cons]
      apply SpellsAll.cons
      · exact spelled piece List.mem_cons_self
      · exact ih fun later member => spelled later (List.mem_cons_of_mem _ member)

/-- An end tag begins no entry. -/
theorem Spells.endTag_cons_ne {left : Bytes} (spelled : Spells first entry) :
    0x03 :: left ≠ first ++ rest := by
  obtain ⟨tag, body, rfl, notEnd⟩ := spelled.exists_cons
  intro same
  exact notEnd (List.cons.inj same).1.symm

/-- Entries before an end tag are spelled in one way only, and nothing behind the
tag can be taken for an entry. -/
theorem SpellsAll.unique {bytes others left more : Bytes} {entries entries' : List Entry}
    (here : SpellsAll bytes entries) (there : SpellsAll others entries')
    (same : bytes ++ 0x03 :: left = others ++ 0x03 :: more) :
    entries = entries' ∧ left = more := by
  induction here generalizing others entries' with
  | nil =>
      cases there with
      | nil => exact ⟨rfl, (List.cons.inj same).2⟩
      | cons head tail =>
          rw [List.append_assoc] at same
          exact absurd same head.endTag_cons_ne
  | cons head tail ih =>
      cases there with
      | nil =>
          rw [List.append_assoc] at same
          exact absurd same.symm head.endTag_cons_ne
      | cons head' tail' =>
          rw [List.append_assoc, List.append_assoc] at same
          obtain ⟨-, rfl, behind⟩ := head.unique head' same
          obtain ⟨rfl, rfl⟩ := ih tail' behind
          exact ⟨rfl, rfl⟩

end Entry

namespace Assembly

/-- An entry that is cut somewhere behind its tag is refused. -/
theorem exists_readAll_eq_error {piece cut : Bytes} {entry : Entry}
    (spelled : Entry.Spells piece entry) (front : cut <+: piece) (nonempty : cut ≠ [])
    (short : cut.length < piece.length) (a : Assembly) (offset : Nat) :
    ∃ cause, readAll a ⟨cut, offset⟩ = .error cause := by
  cases result : readAll a ⟨cut, offset⟩ with
  | error cause => exact ⟨cause, rfl⟩
  | ok read =>
      exfalso
      obtain ⟨bytes, entries, ending, accepted, ends, rfl, -⟩ := readAll_eq_ok_iff.mp result
      cases accepted with
      | nil =>
          obtain ⟨rfl, -⟩ | rfl := ends
          · exact nonempty rfl
          · obtain ⟨rest, whole⟩ := front
            have begins : 0x03 :: (read.2 ++ rest) = piece ++ [] := by
              rw [List.append_nil, ← whole, List.nil_append, List.cons_append]
            exact spelled.endTag_cons_ne begins
      | @cons first behind _ _ head _ =>
          have within : first <+: piece := by
            apply List.IsPrefix.trans _ front
            exact ⟨behind ++ ending, (List.append_assoc _ _ _).symm⟩
          have whole : first = piece := head.eq_of_prefix spelled within
          rw [← whole] at short
          simp only [List.length_append] at short
          omega

end Assembly

end InternetPrinting
