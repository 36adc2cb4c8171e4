import InternetPrinting.Proofs.Text.Parting
import InternetPrinting.Proofs.Text.PathSegment
import InternetPrinting.Text.Utf8.RoundTrip
import Mathlib.Data.List.Basic

/-!
# Forms read back

A key or a value of a form is written without the two marks that part a form, so
whatever it holds it neither ends a field nor begins one. Parting a form at its
marks and decoding the pieces gives back the fields that were written, in their
order. A form without fields is empty, and no other form is.
-/

namespace InternetPrinting.Text.Percent

variable {fields : List (String × String)}

/-- A byte of a form once its plus signs have been turned into spaces. -/
def spacedByte (b : UInt8) : List Char :=
  if b = 0x20 then [' '] else segmentByte b

/-- Turning plus signs into spaces undoes what a form writes for a space and
nothing else, for a plus sign of the text itself is written as a triplet. -/
theorem map_formByte (b : UInt8) :
    ((formByte b).map fun c => if c = '+' then ' ' else c) = spacedByte b := by
  unfold formByte spacedByte
  split
  · rfl
  · calc
      (segmentByte b).map (fun c => if c = '+' then ' ' else c) = (segmentByte b).map id := by
        apply List.map_congr_left
        intro c member
        have other : c ≠ '+' := by
          rintro rfl
          exact absurd (isSegmentChar_of_mem_segmentByte member) (by decide)
        exact if_neg other
      _ = segmentByte b := List.map_id _

theorem decode?_spacedByte_append (b : UInt8) (rest : List Char) :
    decode? (spacedByte b ++ rest) = (decode? rest).map (b :: ·) := by
  unfold spacedByte
  split
  · next space =>
    subst space
    exact decode?_cons (by decide) (by decide) rest
  · exact decode?_segmentByte_append b rest

/-- A key or a value of a form tells the bytes of its text. -/
theorem formDecode?_formText (s : String) : formDecode? (formText s) = some (utf8 s) := by
  have spaced : ((formText s).map fun c => if c = '+' then ' ' else c) =
      (utf8 s).flatMap spacedByte := by
    rw [formText, List.map_flatMap]
    exact List.flatMap_congr fun b _ => map_formByte b
  rw [formDecode?, spaced]
  induction utf8 s with
  | nil => rfl
  | cons b rest ih => rw [List.flatMap_cons, decode?_spacedByte_append, ih, Option.map_some]

/-- Neither mark of a form occurs in a key or a value. -/
theorem ne_of_mem_formText {s : String} {c : Char} (h : c ∈ formText s) : c ≠ '&' ∧ c ≠ '=' := by
  obtain ⟨b, -, inByte⟩ := List.mem_flatMap.mp h
  have kept : c = '+' ∨ isSegmentChar c = true := by
    unfold formByte at inByte
    split at inByte
    · exact .inl (List.mem_singleton.mp inByte)
    · exact .inr (isSegmentChar_of_mem_segmentByte inByte)
  constructor <;>
  · rintro rfl
    revert kept
    decide

theorem notMem_formField (field : String × String) : '&' ∉ formField field := by
  intro member
  rcases List.mem_append.mp member with key | rest
  · exact (ne_of_mem_formText key).1 rfl
  · rcases List.mem_cons.mp rest with equals | value
    · exact absurd equals (by decide)
    · exact (ne_of_mem_formText value).1 rfl

/-- A field tells the bytes of its key and of its value. -/
theorem formField?_formField (field : String × String) :
    formField? (formField field) = some (utf8 field.1, utf8 field.2) := by
  have unmarked : '=' ∉ formText field.1 := fun member => (ne_of_mem_formText member).2 rfl
  obtain ⟨key, value⟩ := before_behind_append_cons unmarked (formText field.2)
  rw [formField?, formField, key, value, formDecode?_formText, formDecode?_formText]
  rfl

/-- The ampersands of a form stand between its fields only. -/
theorem parts_formBody (filled : fields ≠ []) :
    parts '&' (formBody fields).toList = fields.map formField := by
  rw [formBody, String.toList_ofList]
  apply parts_intercalate
  · intro part member
    obtain ⟨field, -, rfl⟩ := List.mem_map.mp member
    exact notMem_formField field
  · exact mt List.map_eq_nil_iff.mp filled

/-- A form tells the bytes of its fields in order. -/
theorem formFields?_formBody (filled : fields ≠ []) :
    formFields? (formBody fields).toList =
      some (fields.map fun field => (utf8 field.1, utf8 field.2)) := by
  have read : formField? ∘ formField = fun field => pure (utf8 field.1, utf8 field.2) :=
    funext formField?_formField
  rw [formFields?, parts_formBody filled, List.mapM_map, read, List.mapM_pure]
  rfl

/-- The key and the value of a field as texts, if both are text. -/
def fieldTexts? (field : Bytes × Bytes) : Option (String × String) := do
  pure (← strict? field.1, ← strict? field.2)

/-- The keys and values of a form as texts. -/
def formTexts? (form : String) : Option (List (String × String)) := do
  (← formFields? form.toList).mapM fieldTexts?

theorem fieldTexts?_utf8 (field : String × String) :
    fieldTexts? (utf8 field.1, utf8 field.2) = some field := by
  rw [fieldTexts?, strict?_utf8, strict?_utf8]
  rfl

/-- A form tells its fields. -/
theorem formTexts?_formBody (filled : fields ≠ []) :
    formTexts? (formBody fields) = some fields := by
  have read : fieldTexts? ∘ (fun field : String × String => (utf8 field.1, utf8 field.2)) =
      fun field => pure (id field) :=
    funext fieldTexts?_utf8
  rw [formTexts?, formFields?_formBody filled, Option.bind_eq_bind, Option.bind_some,
    List.mapM_map, read, List.mapM_pure, List.map_id]
  rfl

/-- A form is empty only if it has no fields, for a field is never empty. -/
theorem formBody_eq_empty_iff : formBody fields = "" ↔ fields = [] := by
  constructor
  · intro empty
    cases fields with
    | nil => rfl
    | cons field rest =>
        have parted := parts_formBody (List.cons_ne_nil field rest)
        rw [empty, List.map_cons] at parted
        have first : [] = formField field := (List.cons.inj parted).1
        exact absurd first.symm (List.append_ne_nil_of_right_ne_nil _ (List.cons_ne_nil _ _))
  · rintro rfl
    rfl

theorem formBody_injective : Function.Injective formBody := by
  intro fields others same
  by_cases none : fields = []
  · subst none
    exact (formBody_eq_empty_iff.mp same.symm).symm
  · have filled : others ≠ [] := fun empty =>
      none (formBody_eq_empty_iff.mp (same.trans (formBody_eq_empty_iff.mpr empty)))
    apply Option.some.inj
    calc
      some fields = formTexts? (formBody fields) := (formTexts?_formBody none).symm
      _ = formTexts? (formBody others) := by rw [same]
      _ = some others := formTexts?_formBody filled

end InternetPrinting.Text.Percent
