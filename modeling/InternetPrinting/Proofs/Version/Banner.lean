import InternetPrinting.Version
import Mathlib.Data.List.Forall2
import Mathlib.Data.List.TakeWhile

/-!
# The first version on a page

A version is shown by a marker, each letter in either case, with at least one
digit or dot right behind it. The search finds the longest run of digits and dots
behind the first marker of that kind, and nothing if there is none. Markers with
anything else behind them do not count, however many there are.
-/

namespace InternetPrinting.Version

variable {text rest version mark : List Char} {c : Char}

/-- A spelling of the marker, each letter in either case. -/
def IsMarker (mark : List Char) : Prop :=
  List.Forall₂ (fun w c => c = w ∨ c = w.toUpper) marker mark

/-- The text begins with a marker that has a version behind it. -/
def Shows (text : List Char) : Prop :=
  ∃ mark c rest, text = mark ++ c :: rest ∧ IsMarker mark ∧ isVersionChar c = true

/-- The text begins with a marker, and this is all of the version behind it. -/
def ShowsVersion (text version : List Char) : Prop :=
  ∃ mark back, text = mark ++ version ++ back ∧ IsMarker mark ∧ version ≠ [] ∧
    (∀ c ∈ version, isVersionChar c = true) ∧ ∀ c, back.head? = some c → isVersionChar c = false

/-- The version that is shown by the first marker that shows one. -/
def FirstVersion (text version : List Char) : Prop :=
  ∃ front rest, text = front ++ rest ∧ ShowsVersion rest version ∧
    ∀ i < front.length, ¬Shows (text.drop i)

theorem toNat_toLower (c : Char) :
    c.toLower.toNat = if 0x41 ≤ c.toNat ∧ c.toNat ≤ 0x5A then c.toNat + 0x20 else c.toNat := by
  have upper_iff : ('A'.val ≤ c.val ∧ c.val ≤ 'Z'.val) ↔ 0x41 ≤ c.toNat ∧ c.toNat ≤ 0x5A := by
    simp [UInt32.le_iff_toNat_le]
  unfold Char.toLower
  split
  · next upper =>
    have range := upper_iff.mp upper
    have width : (0x20 : UInt32).toNat = 0x20 := rfl
    rw [if_pos range]
    change (c.val + 0x20).toNat = c.toNat + 0x20
    rw [UInt32.toNat_add, Char.toNat_val, width, Nat.mod_eq_of_lt (by omega)]
  · next other => rw [if_neg (mt upper_iff.mpr other)]

theorem isVersionChar_iff :
    isVersionChar c = true ↔ c.toNat = 0x2E ∨ 0x30 ≤ c.toNat ∧ c.toNat ≤ 0x39 := by
  simp [isVersionChar, Char.isDigit, UInt32.le_iff_toNat_le, ← Char.toNat_inj, or_comm]

/-- Only a version's own characters are turned into them by lower case. -/
theorem eq_of_toLower_of_isVersionChar {d : Char} (shown : isVersionChar d = true)
    (lower : c.toLower = d) : c = d := by
  subst lower
  rw [isVersionChar_iff, toNat_toLower] at shown
  by_cases upper : 0x41 ≤ c.toNat ∧ c.toNat ≤ 0x5A
  · rw [if_pos upper] at shown
    omega
  · rw [← Char.toNat_inj, toNat_toLower, if_neg upper]

theorem toLower_of_isVersionChar (shown : isVersionChar c = true) : c.toLower = c := by
  rw [isVersionChar_iff] at shown
  rw [← Char.toNat_inj, toNat_toLower, if_neg (by omega)]

theorem toLower_eq_iff {w : Char} (letter : w ∈ marker) :
    c.toLower = w ↔ c = w ∨ c = w.toUpper := by
  simp only [marker, List.mem_cons, List.not_mem_nil, or_false] at letter
  rcases letter with rfl | rfl | rfl | rfl | rfl <;>
  · simp only [← Char.toNat_inj, toNat_toLower, Char.reduceToUpper, Char.reduceToNat]
    split <;> omega

/-- The spellings of the marker are what lower case turns into it. -/
theorem isMarker_iff : IsMarker mark ↔ mark.map Char.toLower = marker := by
  have letters : ∀ {ws cs : List Char}, (∀ w ∈ ws, w ∈ marker) →
      (List.Forall₂ (fun w c => c = w ∨ c = w.toUpper) ws cs ↔ cs.map Char.toLower = ws) := by
    intro ws cs among
    induction ws generalizing cs with
    | nil => simp
    | cons w ws ih =>
        obtain ⟨here, behind⟩ := List.forall_mem_cons.mp among
        cases cs with
        | nil => simp
        | cons c cs => rw [List.forall₂_cons, List.map_cons, List.cons.injEq, ih behind,
            toLower_eq_iff here]
  exact letters fun _ letter => letter

theorem length_of_isMarker (marks : IsMarker mark) : mark.length = marker.length :=
  (List.Forall₂.length_eq marks).symm

theorem afterWord?_eq_some_iff {word : List Char} :
    afterWord? word text = some rest ↔
      ∃ front, front.map Char.toLower = word ∧ text = front ++ rest := by
  induction word generalizing text with
  | nil =>
      rw [afterWord?, Option.some_inj]
      constructor
      · rintro rfl
        exact ⟨[], rfl, rfl⟩
      · rintro ⟨front, lower, rfl⟩
        rw [List.map_eq_nil_iff.mp lower, List.nil_append]
  | cons w word ih =>
      constructor
      · intro found
        cases text with
        | nil => cases found
        | cons c text =>
            rw [afterWord?] at found
            split at found
            · next here =>
              obtain ⟨front, lower, rfl⟩ := ih.mp found
              exact ⟨c :: front, by rw [List.map_cons, here, lower], rfl⟩
            · cases found
      · rintro ⟨front, lower, rfl⟩
        obtain ⟨c, front, rfl, here, behind⟩ := List.map_eq_cons_iff.mp lower
        rw [List.cons_append, afterWord?, if_pos here]
        exact ih.mpr ⟨front, behind, rfl⟩

/-- The front of a text that consists of version characters, and what stops it. -/
theorem exists_longest (text : List Char) :
    ∃ back, text = text.takeWhile isVersionChar ++ back ∧
      ∀ c, back.head? = some c → isVersionChar c = false := by
  refine ⟨text.dropWhile isVersionChar, List.takeWhile_append_dropWhile.symm, ?_⟩
  intro c first
  have stopped := List.head?_dropWhile_not isVersionChar text
  rw [first] at stopped
  simpa using stopped

theorem takeWhile_append_of_stopped {back : List Char}
    (shown : ∀ c ∈ version, isVersionChar c = true)
    (stopped : ∀ c, back.head? = some c → isVersionChar c = false) :
    (version ++ back).takeWhile isVersionChar = version := by
  rw [List.takeWhile_append_of_pos shown]
  cases back with
  | nil => rw [List.takeWhile_nil, List.append_nil]
  | cons c back =>
      rw [List.takeWhile_cons_of_neg (by simp [stopped c rfl]), List.append_nil]

/-- Behind a marker stands what the text goes on with as long as that may belong
to a version. -/
theorem atFront?_of_isMarker (marks : IsMarker mark) (rest : List Char) :
    atFront? (mark ++ rest) =
      if rest.takeWhile isVersionChar = [] then none else some (rest.takeWhile isVersionChar) := by
  have found : afterWord? marker (mark ++ rest) = some rest :=
    afterWord?_eq_some_iff.mpr ⟨mark, isMarker_iff.mp marks, rfl⟩
  simp only [atFront?, found, List.isEmpty_iff]

theorem exists_isMarker_of_atFront? (found : atFront? text = some version) :
    ∃ mark rest, IsMarker mark ∧ text = mark ++ rest := by
  unfold atFront? at found
  split at found
  · cases found
  · next rest marked =>
    obtain ⟨mark, lower, rfl⟩ := afterWord?_eq_some_iff.mp marked
    exact ⟨mark, rest, isMarker_iff.mpr lower, rfl⟩

/-- The version at the front is the one that is shown there. -/
theorem atFront?_eq_some_iff : atFront? text = some version ↔ ShowsVersion text version := by
  constructor
  · intro found
    obtain ⟨mark, rest, marks, rfl⟩ := exists_isMarker_of_atFront? found
    rw [atFront?_of_isMarker marks] at found
    obtain ⟨back, whole, stopped⟩ := exists_longest rest
    split at found
    · cases found
    · next filled =>
      cases found
      refine ⟨mark, back, ?_, marks, filled, fun c => List.mem_takeWhile_imp, stopped⟩
      rw [List.append_assoc, ← whole]
  · rintro ⟨mark, back, rfl, marks, filled, shown, stopped⟩
    rw [List.append_assoc, atFront?_of_isMarker marks, takeWhile_append_of_stopped shown stopped,
      if_neg filled]

theorem shows_iff_exists : Shows text ↔ ∃ version, ShowsVersion text version := by
  constructor
  · rintro ⟨mark, c, rest, rfl, marks, shown⟩
    refine ⟨(c :: rest).takeWhile isVersionChar, atFront?_eq_some_iff.mp ?_⟩
    rw [atFront?_of_isMarker marks, if_neg]
    rw [List.takeWhile_cons_of_pos shown]
    exact List.cons_ne_nil _ _
  · rintro ⟨version, mark, back, rfl, marks, filled, shown, -⟩
    obtain ⟨c, version, rfl⟩ := List.exists_cons_of_ne_nil filled
    exact ⟨mark, c, version ++ back, by simp, marks, shown c List.mem_cons_self⟩

theorem atFront?_eq_none_iff : atFront? text = none ↔ ¬Shows text := by
  rw [shows_iff_exists, Option.eq_none_iff_forall_ne_some, not_exists]
  exact forall_congr' fun version => not_congr atFront?_eq_some_iff

theorem not_shows_nil : ¬Shows [] :=
  atFront?_eq_none_iff.mp rfl

theorem not_firstVersion_nil : ¬FirstVersion [] version := by
  rintro ⟨front, rest, whole, shown, -⟩
  obtain ⟨rfl, rfl⟩ := List.append_eq_nil_iff.mp whole.symm
  exact not_shows_nil (shows_iff_exists.mpr ⟨version, shown⟩)

/-- The first version is shown at the front, or else it is the first one behind. -/
theorem firstVersion_cons_iff :
    FirstVersion (c :: text) version ↔
      ShowsVersion (c :: text) version ∨ ¬Shows (c :: text) ∧ FirstVersion text version := by
  constructor
  · rintro ⟨front, rest, whole, shown, earlier⟩
    cases front with
    | nil =>
        rw [List.nil_append] at whole
        exact .inl (whole ▸ shown)
    | cons d front =>
        obtain ⟨-, behind⟩ := List.cons.inj whole
        refine .inr ⟨earlier 0 (Nat.succ_pos _), front, rest, behind, shown, ?_⟩
        exact fun i within => earlier (i + 1) (Nat.succ_lt_succ within)
  · rintro (shown | ⟨quiet, front, rest, rfl, shown, earlier⟩)
    · exact ⟨[], c :: text, rfl, shown, fun i within => absurd within (Nat.not_lt_zero i)⟩
    · refine ⟨c :: front, rest, rfl, shown, ?_⟩
      intro i within
      cases i with
      | zero => exact quiet
      | succ i => exact earlier i (Nat.lt_of_succ_lt_succ within)

/-- The search finds the version of the first marker that shows one. -/
theorem find?_eq_some_iff : find? text = some version ↔ FirstVersion text version := by
  induction text with
  | nil => simp [find?, not_firstVersion_nil]
  | cons c text ih =>
      rw [firstVersion_cons_iff, ← atFront?_eq_some_iff, ← atFront?_eq_none_iff, ← ih]
      cases here : atFront? (c :: text) <;> simp [find?, here]

/-- Nothing is found only where no marker shows a version. -/
theorem find?_eq_none_iff : find? text = none ↔ ∀ i, ¬Shows (text.drop i) := by
  induction text with
  | nil => simp [find?, not_shows_nil]
  | cons c text ih =>
      have first : (∀ i, ¬Shows ((c :: text).drop i)) ↔
          ¬Shows (c :: text) ∧ ∀ i, ¬Shows (text.drop i) := by
        constructor
        · exact fun none => ⟨none 0, fun i => none (i + 1)⟩
        · rintro ⟨here, behind⟩ i
          cases i with
          | zero => exact here
          | succ i => exact behind i
      rw [first, ← ih, ← atFront?_eq_none_iff]
      cases here : atFront? (c :: text) <;> simp [find?, here]

/-- Whether a marker shows a version is told by the text in lower case, up to the
first character of the version. -/
theorem shows_iff_prefix :
    Shows text ↔ ∃ c, isVersionChar c = true ∧ marker ++ [c] <+: text.map Char.toLower := by
  constructor
  · rintro ⟨mark, c, rest, rfl, marks, shown⟩
    refine ⟨c, shown, rest.map Char.toLower, ?_⟩
    rw [List.map_append, List.map_cons, isMarker_iff.mp marks, toLower_of_isVersionChar shown,
      List.append_assoc, List.singleton_append]
  · rintro ⟨c, shown, rest, whole⟩
    obtain ⟨front, back, rfl, begins, -⟩ := List.map_eq_append_iff.mp whole.symm
    obtain ⟨mark, last, rfl, marks, ends⟩ := List.map_eq_append_iff.mp begins
    obtain ⟨d, rfl, lower⟩ := List.map_eq_singleton_iff.mp ends
    obtain rfl : d = c := eq_of_toLower_of_isVersionChar shown lower
    exact ⟨mark, d, back, by simp, isMarker_iff.mpr marks, shown⟩

/-- The search passes over a front in which no marker shows a version. -/
theorem find?_append_of_quiet {front : List Char}
    (quiet : ∀ i < front.length, ¬Shows (front.drop i ++ rest)) :
    find? (front ++ rest) = find? rest := by
  induction front with
  | nil => rfl
  | cons c front ih =>
      have here : atFront? (c :: (front ++ rest)) = none :=
        atFront?_eq_none_iff.mpr (quiet 0 (Nat.succ_pos _))
      rw [List.cons_append, find?, here]
      exact ih fun i within => quiet (i + 1) (Nat.succ_lt_succ within)

/-- No marker begins inside another one. -/
theorem not_shows_drop_isMarker (marks : IsMarker mark) {i : Nat} (inside : 0 < i)
    (within : i < mark.length) : ¬Shows (mark.drop i ++ rest) := by
  intro shows
  obtain ⟨c, -, back, whole⟩ := shows_iff_prefix.mp shows
  have lower := isMarker_iff.mp marks
  have bound : i < marker.length := length_of_isMarker marks ▸ within
  have first : marker[i]? = some 'c' := by
    rw [List.map_append, List.map_drop, lower] at whole
    have left : 0 < (marker.drop i).length := by
      rw [List.length_drop]
      omega
    calc
      marker[i]? = (marker.drop i ++ rest.map Char.toLower)[0]? := by
        rw [List.getElem?_append_left left, List.getElem?_drop, Nat.add_zero]
      _ = (marker ++ [c] ++ back)[0]? := by rw [whole]
      _ = some 'c' := rfl
  have only : ∀ j : Fin marker.length, marker[j.val]? = some 'c' → j.val = 0 := by decide
  exact absurd (only ⟨i, bound⟩ first) (Nat.ne_of_gt inside)

/-- Behind a marker without a version the search goes on. -/
theorem find?_of_isMarker (marks : IsMarker mark) (rest : List Char) :
    find? (mark ++ rest) =
      if rest.takeWhile isVersionChar = [] then find? rest
      else some (rest.takeWhile isVersionChar) := by
  split
  · next empty =>
    apply find?_append_of_quiet
    intro i within
    rcases Nat.eq_zero_or_pos i with rfl | inside
    · rw [List.drop_zero, ← atFront?_eq_none_iff, atFront?_of_isMarker marks, if_pos empty]
    · exact not_shows_drop_isMarker marks inside within
  · next filled =>
    have shown := atFront?_of_isMarker marks rest
    rw [if_neg filled] at shown
    generalize mark ++ rest = text at shown
    cases text with
    | nil => cases shown
    | cons c text => rw [find?, shown]

theorem isVersionChar_of_mem_toString {n : Nat} (member : c ∈ (toString n).toList) :
    isVersionChar c = true := by
  rw [Nat.toString_eq_ofList_toDigits, String.toList_ofList] at member
  have digit := Nat.isDigit_of_mem_toDigits (by decide) (by decide) member
  simp [isVersionChar, digit]

theorem isVersionChar_of_mem_format {packed : UInt32} (member : c ∈ (format packed).toList) :
    isVersionChar c = true := by
  have dot : ∀ c ∈ ".".toList, isVersionChar c = true := by
    intro c mark
    obtain rfl : c = '.' := List.mem_singleton.mp mark
    rfl
  simp only [format, String.toList_append, List.mem_append] at member
  rcases member with (((major | mark) | minor) | mark) | patch
  · exact isVersionChar_of_mem_toString major
  · exact dot c mark
  · exact isVersionChar_of_mem_toString minor
  · exact dot c mark
  · exact isVersionChar_of_mem_toString patch

theorem toList_format_ne_nil (packed : UInt32) : (format packed).toList ≠ [] := by
  simp [format]

/-- A version that was packed is found behind a marker, if no marker before that
shows another one and nothing behind prolongs it. -/
theorem firstVersion_format (packed : UInt32) {front back : List Char} (marks : IsMarker mark)
    (earlier : ∀ i < front.length, ¬Shows ((front ++ "CUPS/".toList).drop i))
    (stopped : ∀ c, back.head? = some c → isVersionChar c = false) :
    FirstVersion (front ++ (mark ++ (format packed).toList ++ back)) (format packed).toList := by
  refine ⟨front, _, rfl, ?_, ?_⟩
  · exact ⟨mark, back, rfl, marks, toList_format_ne_nil packed,
      fun c => isVersionChar_of_mem_format, stopped⟩
  · intro i within shows
    -- A marker that begins in front shows its version within the marker that follows.
    obtain ⟨c, shown, begins⟩ := shows_iff_prefix.mp shows
    apply earlier i within
    apply shows_iff_prefix.mpr
    refine ⟨c, shown, ?_⟩
    have spelled : mark.map Char.toLower = "CUPS/".toList.map Char.toLower :=
      (isMarker_iff.mp marks).trans (by decide)
    have same : ((front ++ mark).drop i).map Char.toLower =
        ((front ++ "CUPS/".toList).drop i).map Char.toLower := by
      rw [List.map_drop, List.map_drop, List.map_append, List.map_append, spelled]
    have length := length_of_isMarker marks
    rw [← same]
    apply List.prefix_of_prefix_length_le begins
    · apply List.IsPrefix.map
      have inside : i ≤ front.length := Nat.le_of_lt within
      rw [List.drop_append_of_le_length inside, List.drop_append_of_le_length inside,
        List.prefix_append_right_inj, List.append_assoc]
      exact List.prefix_append _ _
    · simp only [List.length_append, List.length_map, List.length_drop, length, marker,
        List.length_cons, List.length_nil]
      omega

end InternetPrinting.Version
