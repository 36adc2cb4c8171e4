import InternetPrinting.Proofs.Wire.Value

/-!
# The grammar of the attribute section

An entry is spelled by a group marker with a name, or by any other tag but the
end tag with a name and a value that can be read under the tag. A section is a
sequence of entries up to the end of the message or to an end tag. The reading
loop accepts exactly the sections and takes in their entries in order: it has
no choice, since each tag and each length settles where an entry ends.

## Implementation notes

Bytes are related to entries and not computed from them, because a name or a
text that is not UTF-8 has no entry of its own: many byte strings spell the
same entry.
-/

namespace InternetPrinting

open Message (endTag groupTag)
open Text (utf8 lossy lossy_utf8)

namespace Entry

/-- The bytes that spell an entry. -/
inductive Spells : Bytes → Entry → Prop
  | marker {group : Bytes} (short : group.length < 65536) :
      Spells (0x04 :: Bytes.field group) (.marker (lossy group))
  | tagged {tag : UInt8} {name raw : Bytes} {value : Value} (notEnd : tag ≠ 0x03)
      (notGroup : tag ≠ 0x04) (shortName : name.length < 65536)
      (shortValue : raw.length < 65536) (meaning : Value.decode tag raw = .ok value) :
      Spells (tag :: (Bytes.field name ++ Bytes.field raw)) (.attribute (lossy name) value)

/-- The bytes that spell entries one after another. -/
inductive SpellsAll : Bytes → List Entry → Prop
  | nil : SpellsAll [] []
  | cons {first rest : Bytes} {entry : Entry} {entries : List Entry}
      (head : Spells first entry) (tail : SpellsAll rest entries) :
      SpellsAll (first ++ rest) (entry :: entries)

theorem Spells.exists_cons {bytes : Bytes} {entry : Entry} (h : Spells bytes entry) :
    ∃ tag body, bytes = tag :: body ∧ tag ≠ 0x03 := by
  cases h with
  | marker short => exact ⟨0x04, _, rfl, by decide⟩
  | tagged notEnd => exact ⟨_, _, rfl, notEnd⟩

/-- Behind a tag an entry is read exactly where one is spelled. -/
theorem read_eq_ok_iff {tag : UInt8} {c next : Cursor} {entry : Entry} (notEnd : tag ≠ 0x03) :
    read tag c = .ok (entry, next) ↔
      ∃ body, Spells (tag :: body) entry ∧ c.rest = body ++ next.rest ∧
        next.offset = c.offset + body.length := by
  constructor
  · intro h
    unfold read at h
    split at h
    · next isGroup =>
      split at h
      · cases h
      · next hit =>
        obtain ⟨short, rest, offset⟩ := Cursor.field_eq_ok_iff.mp hit
        cases h
        subst isGroup
        exact ⟨_, .marker short, rest, offset⟩
    · next notGroup =>
      split at h
      · cases h
      · next first =>
        split at h
        · cases h
        · next second =>
          split at h
          · cases h
          · next meaning =>
            obtain ⟨shortName, nameRest, nameOffset⟩ := Cursor.field_eq_ok_iff.mp first
            obtain ⟨shortValue, rest, offset⟩ := Cursor.field_eq_ok_iff.mp second
            cases h
            refine ⟨_, .tagged notEnd notGroup shortName shortValue meaning, ?_, ?_⟩
            · rw [nameRest, rest, List.append_assoc]
            · rw [offset, nameOffset, List.length_append, Nat.add_assoc]
  · rintro ⟨body, spelled, rest, offset⟩
    cases spelled with
    | marker short =>
        rw [read, groupTag, if_pos rfl, Cursor.field_eq_ok_iff.mpr ⟨short, rest, offset⟩]
    | @tagged _ name raw _ _ notGroup shortName shortValue meaning =>
        have first : c.field .attributeName =
            .ok (name, ⟨Bytes.field raw ++ next.rest, c.offset + (Bytes.field name).length⟩) :=
          Cursor.field_eq_ok_iff.mpr ⟨shortName, by rw [rest, List.append_assoc], rfl⟩
        have second : Cursor.field .attributeValue
            ⟨Bytes.field raw ++ next.rest, c.offset + (Bytes.field name).length⟩ =
              .ok (raw, next) :=
          Cursor.field_eq_ok_iff.mpr
            ⟨shortValue, rfl, by rw [offset, List.length_append, Nat.add_assoc]⟩
        simp only [read, groupTag, if_neg notGroup, first, second, meaning]

/-- An entry that can be written: its fields are short enough. -/
def Writable : Entry → Prop
  | .marker group => (utf8 group).length ≤ 65535
  | .attribute name value => (utf8 name).length ≤ 65535 ∧ value.Writable

instance (entry : Entry) : Decidable entry.Writable :=
  match entry with
  | .marker group => inferInstanceAs (Decidable ((utf8 group).length ≤ 65535))
  | .attribute name value =>
    inferInstanceAs (Decidable ((utf8 name).length ≤ 65535 ∧ value.Writable))

/-- What is written for an entry spells it. -/
theorem spells_bytes {entry : Entry} (h : entry.Writable) : Spells entry.bytes entry := by
  rcases entry with group | ⟨name, value⟩
  · have spelled := Spells.marker (Nat.lt_succ_of_le h)
    rwa [lossy_utf8] at spelled
  · obtain ⟨shortName, writable⟩ := h
    obtain ⟨notEnd, notGroup⟩ := Value.tag_ne_of_writable writable
    have spelled := Spells.tagged notEnd notGroup (Nat.lt_succ_of_le shortName)
      (Value.length_bytes_lt writable) (Value.decode_tag_bytes writable)
    rwa [lossy_utf8] at spelled

theorem spellsAll_flatMap_bytes {entries : List Entry} (h : ∀ entry ∈ entries, entry.Writable) :
    SpellsAll (entries.flatMap bytes) entries := by
  induction entries with
  | nil => exact .nil
  | cons entry rest ih =>
      rw [List.flatMap_cons]
      obtain ⟨here, later⟩ := List.forall_mem_cons.mp h
      exact .cons (spells_bytes here) (ih later)

theorem ofMessage_of_take {part : Part} {n : Nat} {c : Cursor} {cause : Malformed}
    (h : c.take part n = .error cause) : cause.OfMessage := by
  unfold Cursor.take at h
  split at h <;> cases h
  trivial

theorem ofMessage_of_field {part : Part} {c : Cursor} {cause : Malformed}
    (h : c.field part = .error cause) : cause.OfMessage := by
  unfold Cursor.field at h
  split at h
  · next hit =>
    cases h
    exact ofMessage_of_take hit
  · exact ofMessage_of_take h

/-- An entry that cannot be read is wrong in itself. -/
theorem ofMessage_of_read {tag : UInt8} {c : Cursor} {cause : Malformed}
    (h : read tag c = .error cause) : cause.OfMessage := by
  unfold read at h
  split at h
  · split at h
    · next hit =>
      cases h
      exact ofMessage_of_field hit
    · cases h
  · split at h
    · next hit =>
      cases h
      exact ofMessage_of_field hit
    · split at h
      · next hit =>
        cases h
        exact ofMessage_of_field hit
      · split at h
        · next hit =>
          cases h
          exact Value.ofMessage_of_decode hit
        · cases h

end Entry

namespace Assembly

theorem readAll_nil (a : Assembly) (offset : Nat) : readAll a ⟨[], offset⟩ = .ok (a, []) := by
  rw [readAll]

theorem readAll_endTag (a : Assembly) (rest : Bytes) (offset : Nat) :
    readAll a ⟨0x03 :: rest, offset⟩ = .ok (a, rest) := by
  rw [readAll, endTag, if_pos rfl]

theorem readAll_of_read {a : Assembly} {tag : UInt8} {rest : Bytes} {offset : Nat}
    {entry : Entry} {next : Cursor} (notEnd : tag ≠ 0x03)
    (h : Entry.read tag ⟨rest, offset + 1⟩ = .ok (entry, next)) :
    readAll a ⟨tag :: rest, offset⟩ = readAll (a.add entry) next := by
  rw [readAll, endTag, if_neg notEnd]
  split
  · next other => simp [h] at other
  · next other =>
    simp only [h, Except.ok.injEq, Prod.mk.injEq] at other
    rw [other.1, other.2]

/-- Entries that are spelled at the front are taken in one by one. -/
theorem readAll_append {bytes : Bytes} {entries : List Entry}
    (spelled : Entry.SpellsAll bytes entries) (a : Assembly) (rest : Bytes) (offset : Nat) :
    readAll a ⟨bytes ++ rest, offset⟩ =
      readAll (entries.foldl add a) ⟨rest, offset + bytes.length⟩ := by
  induction spelled generalizing a offset with
  | nil => rfl
  | @cons first behind entry entries head tail ih =>
      obtain ⟨tag, body, rfl, notEnd⟩ := head.exists_cons
      have read : Entry.read tag ⟨body ++ (behind ++ rest), offset + 1⟩ =
          .ok (entry, ⟨behind ++ rest, offset + 1 + body.length⟩) :=
        (Entry.read_eq_ok_iff notEnd).mpr ⟨body, head, rfl, rfl⟩
      have total : offset + (tag :: body ++ behind).length =
          offset + 1 + body.length + behind.length := by
        simp
        omega
      rw [List.append_assoc, List.cons_append, readAll_of_read notEnd read, ih, List.foldl_cons,
        total]

/-- What the loop accepts is spelled entries up to the end of the message or to
an end tag, and it has taken in these entries and left what follows the tag. -/
theorem readAll_eq_ok_iff {a b : Assembly} {c : Cursor} {left : Bytes} :
    readAll a c = .ok (b, left) ↔
      ∃ bytes entries ending, Entry.SpellsAll bytes entries ∧
        (ending = [] ∧ left = [] ∨ ending = 0x03 :: left) ∧
        c.rest = bytes ++ ending ∧ b = entries.foldl add a := by
  constructor
  · intro h
    fun_induction readAll a c with
    | case1 a offset =>
        cases h
        exact ⟨[], [], [], .nil, .inl ⟨rfl, rfl⟩, rfl, rfl⟩
    | case2 a rest offset =>
        cases h
        exact ⟨[], [], _, .nil, .inr rfl, rfl, rfl⟩
    | case3 => cases h
    | case4 a tag rest offset notEnd entry next read ih =>
        obtain ⟨body, head, front, _⟩ := (Entry.read_eq_ok_iff notEnd).mp read
        obtain ⟨bytes, entries, ending, tail, ends, back, taken⟩ := ih h
        refine ⟨tag :: body ++ bytes, entry :: entries, ending, .cons head tail, ends, ?_, taken⟩
        simp only at front
        rw [front, back, List.append_assoc, List.cons_append]
  · rintro ⟨bytes, entries, ending, spelled, ends, rest, rfl⟩
    obtain ⟨cRest, offset⟩ := c
    simp only at rest
    subst rest
    rw [readAll_append spelled]
    obtain ⟨rfl, rfl⟩ | rfl := ends
    · exact readAll_nil _ _
    · exact readAll_endTag _ _ _

theorem ofMessage_of_readAll {a : Assembly} {c : Cursor} {cause : Malformed}
    (h : readAll a c = .error cause) : cause.OfMessage := by
  fun_induction readAll a c with
  | case1 => cases h
  | case2 => cases h
  | case3 a tag rest offset notEnd other failed =>
      cases h
      exact Entry.ofMessage_of_read failed
  | case4 a tag rest offset notEnd entry next read ih => exact ih h

end Assembly

end InternetPrinting
