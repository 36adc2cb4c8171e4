import InternetPrinting.Proofs.Text.Base64
import InternetPrinting.Session
import Mathlib.Data.List.TakeWhile

/-!
# Texts as field values

A text of visible characters is a field value as it stands. The texts a session
sends are of that kind: an authorization value is written in Base64, and a
cookie is cut out of a field that can be shown as text.
-/

namespace InternetPrinting

namespace Http

/-- A character that a field value shows as text. -/
def isVisibleChar (c : Char) : Bool :=
  c.toNat == 0x09 || (0x20 ≤ c.toNat && c.toNat < 0x7F)

theorem utf8EncodeChar_of_visible {c : Char} (visible : isVisibleChar c = true) :
    String.utf8EncodeChar c = [UInt8.ofNat c.toNat] := by
  apply Text.utf8EncodeChar_of_ascii
  simp only [isVisibleChar, Bool.or_eq_true, beq_iff_eq, Bool.and_eq_true,
    decide_eq_true_eq] at visible
  omega

theorem isValueByte_of_visible {c : Char} (visible : isVisibleChar c = true) :
    isValueByte (UInt8.ofNat c.toNat) = true := by
  simp only [isVisibleChar, Bool.or_eq_true, beq_iff_eq, Bool.and_eq_true,
    decide_eq_true_eq] at visible
  have back : (UInt8.ofNat c.toNat).toNat = c.toNat := by simp; omega
  simp only [isValueByte, Bool.or_eq_true, beq_iff_eq, Bool.and_eq_true, decide_eq_true_eq,
    bne_iff_ne, ne_eq, ← UInt8.toNat_inj, UInt8.le_iff_toNat_le, back, UInt8.reduceToNat]
  omega

/-- A text of visible characters is allowed as a field value. -/
theorem fieldValue?_of_visible {s : String} (visible : ∀ c ∈ s.toList, isVisibleChar c = true) :
    fieldValue? s = some (Text.utf8 s) := by
  have allowed : (Text.utf8 s).all isValueByte = true := by
    apply List.all_eq_true.mpr
    intro b hb
    obtain ⟨c, hc, hb⟩ := List.mem_flatMap.mp hb
    rw [utf8EncodeChar_of_visible (visible c hc), List.mem_singleton] at hb
    subst hb
    exact isValueByte_of_visible (visible c hc)
  simp [fieldValue?, allowed]

/-- What can be shown of a field value consists of visible characters. -/
theorem isVisibleChar_of_visibleText? {value : Bytes} {text : List Char}
    (shown : visibleText? value = some text) : ∀ c ∈ text, isVisibleChar c = true := by
  unfold visibleText? at shown
  split at shown
  · next visible =>
    cases shown
    intro c hc
    obtain ⟨b, hb, rfl⟩ := List.mem_map.mp hc
    have visible : b.toNat = 9 ∨ 32 ≤ b.toNat ∧ b.toNat < 127 := by
      simpa [isVisibleByte, ← UInt8.toNat_inj, UInt8.le_iff_toNat_le,
        UInt8.lt_iff_toNat_lt] using List.all_eq_true.mp visible b hb
    have codes : ∀ m : Fin 128, (Char.ofNat m).toNat = m := by decide
    have code : (Char.ofNat b.toNat).toNat = b.toNat := codes ⟨b.toNat, by omega⟩
    simpa [isVisibleChar, code] using visible
  · cases shown

end Http

namespace Text

variable {mark c : Char} {cs : List Char}

theorem mem_of_mem_before (h : c ∈ before mark cs) : c ∈ cs :=
  List.takeWhile_subset _ h

theorem notMem_before : mark ∉ before mark cs := by
  intro h
  simpa using List.mem_takeWhile_imp h

theorem mem_of_mem_behind (h : c ∈ behind mark cs) : c ∈ cs :=
  (List.dropWhile_suffix _).subset (List.mem_of_mem_drop h)

theorem trimFront_suffix : trimFront cs <:+ cs :=
  List.dropWhile_suffix _

theorem isBlank_of_head?_trimFront (h : (trimFront cs).head? = some c) : isBlank c = false := by
  have first := List.head?_dropWhile_not isBlank cs
  rw [show cs.dropWhile isBlank = trimFront cs from rfl, h] at first
  simpa using first

theorem mem_of_mem_trimChars (h : c ∈ trimChars cs) : c ∈ cs := by
  have inner := trimFront_suffix.subset (List.mem_reverse.mp h)
  exact trimFront_suffix.subset (List.mem_reverse.mp inner)

/-- Neither end of a trimmed text is white space. -/
theorem isBlank_of_end_trimChars
    (h : (trimChars cs).head? = some c ∨ (trimChars cs).getLast? = some c) :
    isBlank c = false := by
  rcases h with first | last
  · -- What the second trimming leaves begins where the first one left off.
    rw [trimChars, List.head?_reverse] at first
    obtain ⟨cut, whole⟩ : trimFront (trimFront cs).reverse <:+ (trimFront cs).reverse :=
      trimFront_suffix
    have front : (trimFront cs).head? = some c := by
      rw [← List.getLast?_reverse, ← whole, List.getLast?_append, first]
      rfl
    exact isBlank_of_head?_trimFront front
  · rw [trimChars, List.getLast?_reverse] at last
    exact isBlank_of_head?_trimFront last

namespace Base64

theorem isVisibleChar_of_mem_encode (bytes : Bytes) :
    ∀ c ∈ encode bytes, Http.isVisibleChar c = true := by
  intro c member
  obtain ⟨above, below⟩ := visible_of_mem_encode member
  simp only [Http.isVisibleChar, Bool.or_eq_true, beq_iff_eq, Bool.and_eq_true, decide_eq_true_eq]
  omega

end Base64

end Text

/-- An authorization value can be sent, whatever the user name and the password. -/
theorem fieldValue?_basicAuthorization (username password : String) :
    Http.fieldValue? (basicAuthorization username password) =
      some (Text.utf8 (basicAuthorization username password)) := by
  apply Http.fieldValue?_of_visible
  intro c hc
  have scheme : "Basic ".toList.all Http.isVisibleChar = true := by decide
  rw [basicAuthorization, String.toList_append, List.mem_append] at hc
  rcases hc with fixed | digits
  · exact List.all_eq_true.mp scheme c fixed
  · rw [String.toList_ofList] at digits
    exact Text.Base64.isVisibleChar_of_mem_encode _ c digits

namespace SessionCookie

/-- A value that can be sent back as the only cookie of a field. -/
structure Clean (cookie : String) : Prop where
  nonempty : cookie.toList ≠ []
  trimmed : ∀ c, cookie.toList.head? = some c ∨ cookie.toList.getLast? = some c →
    Text.isBlank c = false
  single : ';' ∉ cookie.toList
  visible : ∀ c ∈ cookie.toList, Http.isVisibleChar c = true

/-- The cookie that a reply sets is clean, whatever its header fields. -/
theorem clean_of_ofHeaders? {h : Http.Headers} {cookie : String}
    (found : ofHeaders? h = some cookie) : Clean cookie := by
  obtain ⟨value, kept, rfl⟩ := Option.map_eq_some_iff.mp found
  obtain ⟨found, filled⟩ := Option.filter_eq_some_iff.mp kept
  obtain ⟨before, field, after, split, set, -⟩ := List.findSome?_eq_some_iff.mp found
  have shown : ∃ raw, Http.visibleText? raw = some field := by
    have member : field ∈ (h.values .setCookie).filterMap Http.visibleText? := by simp [split]
    obtain ⟨raw, -, shown⟩ := List.mem_filterMap.mp member
    exact ⟨raw, shown⟩
  obtain ⟨raw, shown⟩ := shown
  simp only [value?] at set
  split at set
  · cases set
    constructor
    · simpa using filled
    · intro c ends
      rw [String.toList_ofList] at ends
      exact Text.isBlank_of_end_trimChars ends
    · intro mark
      rw [String.toList_ofList] at mark
      exact Text.notMem_before (Text.mem_of_mem_behind (Text.mem_of_mem_trimChars mark))
    · intro c hc
      rw [String.toList_ofList] at hc
      apply Http.isVisibleChar_of_visibleText? shown
      exact Text.mem_of_mem_before (Text.mem_of_mem_behind (Text.mem_of_mem_trimChars hc))
  · cases set

theorem Clean.isVisibleChar_of_mem {cookie : String} (clean : Clean cookie) :
    ∀ c ∈ (name ++ "=" ++ cookie).toList, Http.isVisibleChar c = true := by
  intro c member
  have label : (name ++ "=").toList.all Http.isVisibleChar = true := by decide
  rw [String.toList_append, List.mem_append] at member
  rcases member with fixed | own
  · exact List.all_eq_true.mp label c fixed
  · exact clean.visible c own

/-- A clean cookie can be sent under its name. -/
theorem Clean.fieldValue? {cookie : String} (clean : Clean cookie) :
    Http.fieldValue? (name ++ "=" ++ cookie) = some (Text.utf8 (name ++ "=" ++ cookie)) :=
  Http.fieldValue?_of_visible clean.isVisibleChar_of_mem

end SessionCookie

end InternetPrinting
