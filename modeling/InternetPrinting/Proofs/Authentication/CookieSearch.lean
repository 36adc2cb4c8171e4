import InternetPrinting.Proofs.Authentication.CookieField

/-!
# The session cookie among the fields of a reply

A reply can set any number of cookies. What makes a field one that sets the
session cookie is said here without the way in which its text is parted. The
search stops at the first such field, whatever its value, and only then finds
out whether the value is empty.

So a field with an empty value, which takes back an earlier cookie, hides one
with a value behind it. That is the only case in which the first session cookie
with a value is not the one that is found.
-/

namespace InternetPrinting

open Http (Headers)

namespace Text

variable {mark : Char} {cs front inner : List Char}

/-- A text is what is left of another one without the white space at its ends. -/
inductive Trims : List Char → List Char → Prop
  | intro {front inner back : List Char} (before : ∀ c ∈ front, isBlank c = true)
      (after : ∀ c ∈ back, isBlank c = true)
      (solid : ∀ c, inner.head? = some c ∨ inner.getLast? = some c → isBlank c = false) :
      Trims (front ++ (inner ++ back)) inner

theorem trimFront_append_of_blank (blank : ∀ c ∈ front, isBlank c = true) (cs : List Char) :
    trimFront (front ++ cs) = trimFront cs :=
  List.dropWhile_append_of_pos blank

theorem exists_blank_append_trimFront (cs : List Char) :
    ∃ front, cs = front ++ trimFront cs ∧ ∀ c ∈ front, isBlank c = true :=
  ⟨cs.takeWhile isBlank, List.takeWhile_append_dropWhile.symm, fun _ => List.mem_takeWhile_imp⟩

theorem trims_trimChars (cs : List Char) : Trims cs (trimChars cs) := by
  obtain ⟨front, split, before⟩ := exists_blank_append_trimFront cs
  obtain ⟨back, split', after⟩ := exists_blank_append_trimFront (trimFront cs).reverse
  have whole : cs = front ++ (trimChars cs ++ back.reverse) := by
    calc
      cs = front ++ (trimFront cs).reverse.reverse := by rw [List.reverse_reverse, ← split]
      _ = front ++ (trimChars cs ++ back.reverse) := by rw [split', List.reverse_append, trimChars]
  have trims : Trims (front ++ (trimChars cs ++ back.reverse)) (trimChars cs) := by
    apply Trims.intro before
    · exact fun c member => after c (List.mem_reverse.mp member)
    · exact fun c ends => isBlank_of_end_trimChars ends
  rwa [← whole] at trims

/-- Trimming takes away white space at the ends and nothing else. -/
theorem trimChars_eq_iff : trimChars cs = inner ↔ Trims cs inner := by
  constructor
  · rintro rfl
    exact trims_trimChars cs
  · rintro @⟨front, inner, back, before, after, solid⟩
    cases inner with
    | nil =>
        have blank : ∀ c ∈ front ++ back, isBlank c = true :=
          List.forall_mem_append.mpr ⟨before, after⟩
        have gone : trimFront (front ++ back) = [] := List.dropWhile_eq_nil_iff.mpr blank
        rw [List.nil_append, trimChars, gone]
        rfl
    | cons c rest =>
        have behind : ∀ c ∈ back.reverse, isBlank c = true :=
          fun c member => after c (List.mem_reverse.mp member)
        have kept : trimFront (c :: rest ++ back) = c :: rest ++ back :=
          trimFront_of_head? fun d first => solid d (.inl first)
        have kept' : trimFront (c :: rest).reverse = (c :: rest).reverse := by
          apply trimFront_of_head?
          intro d last
          rw [List.head?_reverse] at last
          exact solid d (.inr last)
        rw [trimChars, trimFront_append_of_blank before, kept, List.reverse_append,
          trimFront_append_of_blank behind, kept', List.reverse_reverse]

/-- A text is what stands before the first mark, and the mark with the rest if there is one. -/
theorem before_eq_iff :
    before mark cs = front ↔
      mark ∉ front ∧ ∃ rest, cs = front ++ rest ∧ (rest = [] ∨ rest.head? = some mark) := by
  constructor
  · rintro rfl
    refine ⟨notMem_before, cs.dropWhile (· ≠ mark), List.takeWhile_append_dropWhile.symm, ?_⟩
    cases found : (cs.dropWhile (· ≠ mark)).head? with
    | none => exact .inl (List.head?_eq_none_iff.mp found)
    | some c =>
        have stops := List.head?_dropWhile_not (fun c => decide (c ≠ mark)) cs
        rw [found] at stops
        exact .inr (congrArg some (by simpa using stops))
  · rintro ⟨absent, rest, rfl, ends⟩
    cases rest with
    | nil =>
        rw [List.append_nil]
        apply List.takeWhile_eq_self_iff.mpr
        intro c member
        exact decide_eq_true (ne_of_mem_of_not_mem member absent)
    | cons c rest =>
        obtain rfl : c = mark := by simpa using ends
        exact (before_behind_append_cons absent rest).1

end Text

namespace SessionCookie

variable {raw : Bytes} {text value : List Char} {fields : List Bytes}

/-- A text sets the session cookie to a value. Up to the first semicolon it is the name,
an equals sign and the value. White space around the name and around the value does not
count. -/
inductive TextSets : List Char → List Char → Prop
  | intro {label content attributes value : List Char} (unmarked : '=' ∉ label)
      (whole : ';' ∉ label ++ '=' :: content)
      (ends : attributes = [] ∨ attributes.head? = some ';')
      (named : Text.Trims label name.toList) (trimmed : Text.Trims content value) :
      TextSets (label ++ '=' :: content ++ attributes) value

/-- A field sets the session cookie to a value. It can be shown as text, and the text does. -/
def Sets (raw : Bytes) (value : List Char) : Prop :=
  ∃ text, Http.visibleText? raw = some text ∧ TextSets text value

/-- A field sets the session cookie to a value that is not empty. -/
def Fills (raw : Bytes) (value : List Char) : Prop :=
  Sets raw value ∧ value ≠ []

/-- The first of several fields that gives a value of some kind gives this one. -/
inductive First (Gives : Bytes → List Char → Prop) : List Bytes → List Char → Prop
  | intro {before after : List Bytes} {raw : Bytes} {value : List Char}
      (earlier : ∀ other ∈ before, ∀ content, ¬ Gives other content) (here : Gives raw value) :
      First Gives (before ++ raw :: after) value

theorem value?_eq_some_iff : value? text = some value ↔ TextSets text value := by
  constructor
  · intro set
    simp only [value?] at set
    split at set
    · next found =>
      obtain ⟨marked, named⟩ := found
      cases set
      obtain ⟨whole, attributes, split, ends⟩ :=
        Text.before_eq_iff.mp (rfl : Text.before ';' text = _)
      have parted := Text.before_append_behind marked
      have sets : TextSets (Text.before '=' (Text.before ';' text) ++
          '=' :: Text.behind '=' (Text.before ';' text) ++ attributes)
          (Text.trimChars (Text.behind '=' (Text.before ';' text))) := by
        apply TextSets.intro Text.notMem_before _ ends (Text.trimChars_eq_iff.mp named)
        · exact Text.trims_trimChars _
        · rwa [parted]
      rwa [parted, ← split] at sets
    · cases set
  · rintro @⟨label, content, attributes, value, unmarked, whole, ends, named, trimmed⟩
    have cookie : Text.before ';' (label ++ '=' :: content ++ attributes) =
        label ++ '=' :: content := Text.before_eq_iff.mpr ⟨whole, attributes, rfl, ends⟩
    obtain ⟨front, back⟩ := Text.before_behind_append_cons unmarked content
    have marked : '=' ∈ label ++ '=' :: content := by simp
    rw [value?, cookie, front, back, Text.trimChars_eq_iff.mpr named,
      Text.trimChars_eq_iff.mpr trimmed, if_pos ⟨marked, rfl⟩]

/-- The value that a field sets the session cookie to. -/
def set? (raw : Bytes) : Option (List Char) :=
  (Http.visibleText? raw).bind value?

theorem set?_eq_some_iff : set? raw = some value ↔ Sets raw value := by
  simp only [set?, Sets, Option.bind_eq_some_iff, value?_eq_some_iff]

/-- The value that a field sets the session cookie to, unless it is empty. -/
def fill? (raw : Bytes) : Option (List Char) :=
  (set? raw).filter fun value => !value.isEmpty

theorem fill?_eq_some_iff : fill? raw = some value ↔ Fills raw value := by
  rw [fill?, Option.filter_eq_some_iff, set?_eq_some_iff, Fills]
  simp

/-- What a search of the fields stops at is the first that gives a value. -/
theorem findSome?_eq_some_iff_first {give : Bytes → Option (List Char)}
    {Gives : Bytes → List Char → Prop}
    (gives : ∀ {raw value}, give raw = some value ↔ Gives raw value) :
    fields.findSome? give = some value ↔ First Gives fields value := by
  rw [List.findSome?_eq_some_iff]
  constructor
  · rintro ⟨before, raw, after, rfl, here, earlier⟩
    apply First.intro _ (gives.mp here)
    intro other member content given
    rw [← gives, earlier other member] at given
    cases given
  · rintro ⟨earlier, here⟩
    refine ⟨_, _, _, rfl, gives.mpr here, ?_⟩
    intro other member
    apply Option.eq_none_iff_forall_ne_some.mpr
    intro content given
    exact earlier other member content (gives.mp given)

theorem First.unique {value' : List Char} (h : First Sets fields value)
    (h' : First Sets fields value') : value = value' := by
  rw [← findSome?_eq_some_iff_first set?_eq_some_iff] at h h'
  exact Option.some_inj.mp (h.symm.trans h')

/-- If a field with a value is there, some field is the first to set the cookie. -/
theorem exists_first_of_filled (h : First Fills fields value) :
    ∃ first, First Sets fields first := by
  obtain ⟨-, here⟩ := h
  apply (Option.isSome_iff_exists.mp _).imp
  · exact fun _ found => (findSome?_eq_some_iff_first set?_eq_some_iff).mp found
  · rw [List.findSome?_isSome_iff]
    exact ⟨_, by simp, Option.isSome_iff_exists.mpr ⟨_, set?_eq_some_iff.mpr here.1⟩⟩

/-- The first field that sets the cookie is the first with a value if it has one. -/
theorem First.filled (h : First Sets fields value) (nonempty : value ≠ []) :
    First Fills fields value := by
  obtain ⟨earlier, here⟩ := h
  apply First.intro _ ⟨here, nonempty⟩
  intro other member content given
  exact earlier other member content given.1

theorem First.unique_filled {value' : List Char} (h : First Fills fields value)
    (h' : First Fills fields value') : value = value' := by
  rw [← findSome?_eq_some_iff_first fill?_eq_some_iff] at h h'
  exact Option.some_inj.mp (h.symm.trans h')

/-- The cookie of a reply is the value that the first field for it sets, if that is
not empty. -/
theorem ofHeaders?_eq_some_iff {h : Headers} {cookie : String} :
    ofHeaders? h = some cookie ↔
      First Sets (h.values .setCookie) cookie.toList ∧ cookie.toList ≠ [] := by
  have search : ofHeaders? h = (((h.values .setCookie).findSome? set?).filter
      fun value => !value.isEmpty).map String.ofList := by
    simp only [ofHeaders?, ← List.head?_filterMap, List.filterMap_filterMap]
    rfl
  rw [search, Option.map_eq_some_iff]
  constructor
  · rintro ⟨value, kept, rfl⟩
    obtain ⟨found, filled⟩ := Option.filter_eq_some_iff.mp kept
    rw [String.toList_ofList]
    exact ⟨(findSome?_eq_some_iff_first set?_eq_some_iff).mp found, by simpa using filled⟩
  · rintro ⟨first, nonempty⟩
    refine ⟨cookie.toList, Option.filter_eq_some_iff.mpr ⟨?_, by simpa using nonempty⟩,
      String.ofList_toList⟩
    exact (findSome?_eq_some_iff_first set?_eq_some_iff).mpr first

/-- A field that does not set the session cookie makes no difference, wherever it is. -/
theorem first_insert_iff {before after : List Bytes} (other : ∀ content, ¬ Sets raw content) :
    First Sets (before ++ raw :: after) value ↔ First Sets (before ++ after) value := by
  have ignored : set? raw = none := by
    apply Option.eq_none_iff_forall_ne_some.mpr
    exact fun content given => other content (set?_eq_some_iff.mp given)
  simp only [← findSome?_eq_some_iff_first set?_eq_some_iff, List.findSome?_append,
    List.findSome?_cons, ignored]

/-- The cookie that is found in a reply, whatever its header fields. It is the value of
the first field that sets the session cookie, if that is not empty; other fields do not
matter. It is the first value that is not empty in every case but one: a field with an
empty value is the first, and a field with another value is behind it. -/
theorem ofHeaders?_exact (h : Headers) :
    (∀ cookie, ofHeaders? h = some cookie ↔
      First Sets (h.values .setCookie) cookie.toList ∧ cookie.toList ≠ []) ∧
    (∀ before raw after (h' : Headers), h.values .setCookie = before ++ after →
      h'.values .setCookie = before ++ raw :: after → (∀ content, ¬ Sets raw content) →
        ofHeaders? h' = ofHeaders? h) ∧
    ((∀ cookie, ofHeaders? h = some cookie ↔ First Fills (h.values .setCookie) cookie.toList) ↔
      ¬ (First Sets (h.values .setCookie) [] ∧
        ∃ value, First Fills (h.values .setCookie) value)) := by
  refine ⟨fun _ => ofHeaders?_eq_some_iff, ?_, ?_⟩
  · intro before raw after h' fields fields' other
    apply Option.ext
    intro cookie
    rw [ofHeaders?_eq_some_iff, ofHeaders?_eq_some_iff, fields, fields', first_insert_iff other]
  · constructor
    · rintro law ⟨taken, value, filled⟩
      have found := (law (String.ofList value)).mpr (by rwa [String.toList_ofList])
      obtain ⟨first, nonempty⟩ := ofHeaders?_eq_some_iff.mp found
      exact nonempty (first.unique taken)
    · intro unhidden cookie
      rw [ofHeaders?_eq_some_iff]
      constructor
      · rintro ⟨first, nonempty⟩
        exact first.filled nonempty
      · intro filled
        obtain ⟨value, first⟩ := exists_first_of_filled filled
        have nonempty : value ≠ [] := by
          rintro rfl
          exact unhidden ⟨first, _, filled⟩
        obtain rfl := (first.filled nonempty).unique_filled filled
        exact ⟨first, nonempty⟩

/-- A reply that takes back one session cookie and sets another. -/
def takenBackAndSet : Headers :=
  ⟨[(.setCookie, Text.utf8 "org.cups.sid=; Max-Age=0; path=/"),
    (.setCookie, Text.utf8 "org.cups.sid=feedface; path=/")]⟩

/-- The field with the empty value hides the cookie behind it. -/
theorem ofHeaders?_takenBackAndSet :
    First Fills (takenBackAndSet.values .setCookie) "feedface".toList ∧
      ofHeaders? takenBackAndSet = none := by
  constructor
  · apply (findSome?_eq_some_iff_first fill?_eq_some_iff).mp
    decide
  · decide

end SessionCookie

end InternetPrinting
