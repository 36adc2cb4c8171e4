import InternetPrinting.Proofs.Text.ByteSearch
import InternetPrinting.Proofs.Version.Banner

/-!
# Searching a page by offsets

The first version on a page can be found in the bytes of the page: a copy in lower
case is searched for the marker, and the offsets of the copy cut the page itself.
Lower case keeps the length of every character, so the offsets of both agree, and
a marker and a version are whole characters, so no cut goes through one. The search
goes on behind a marker that shows no version, for no marker begins inside another.
-/

namespace InternetPrinting.Version

open Text (encode encode_append encode_cons offset? slice? utf8)

variable {text rest mark : List Char} {c : Char}

/-- A byte that a version may consist of. -/
def isVersionByte (b : UInt8) : Bool :=
  (0x30 ≤ b && b ≤ 0x39) || b == 0x2E

theorem lt_of_offset?_marker {s : String} {start ahead : Nat} {bytes : Bytes}
    (cut : slice? s start s.utf8ByteSize = some bytes)
    (found : offset? (encode marker) bytes = some ahead) : start < s.utf8ByteSize := by
  unfold slice? at cut
  split at cut
  · by_contra beyond
    have empty : bytes = [] := by
      rw [← Option.some.inj cut, Nat.sub_eq_zero_of_le (Nat.le_of_not_lt beyond), List.take_zero]
    have nowhere : offset? (encode marker) [] = none := by decide
    rw [empty, nowhere] at found
    cases found
  · cases cut

/-- The version in a page, searched for from an offset on. Nothing at all comes
of a cut through a character or beyond the end of a text. -/
def searchFrom (page lower : String) (start : Nat) : Option (Option Bytes) :=
  match _cut : slice? lower start lower.utf8ByteSize with
  | none => none
  | some bytes =>
    match _found : offset? (encode marker) bytes with
    | none => some none
    | some ahead =>
      let behind := start + ahead + (encode marker).length
      if page.utf8ByteSize < behind then none
      else
        let length := (((utf8 page).drop behind).takeWhile isVersionByte).length
        if length = 0 then searchFrom page lower behind
        else (slice? page behind (behind + length)).map some
termination_by lower.utf8ByteSize - start
decreasing_by
  have inside := lt_of_offset?_marker _cut _found
  have filled : 0 < (encode marker).length := by decide
  omega

/-- The version in a page, searched for by means of a copy in lower case. -/
def search (page : String) : Option (Option Bytes) :=
  searchFrom page page.toLower 0

theorem searchFrom_of_absent {page lower : String} {start : Nat} {bytes : Bytes}
    (cut : slice? lower start lower.utf8ByteSize = some bytes)
    (absent : offset? (encode marker) bytes = none) :
    searchFrom page lower start = some none := by
  rw [searchFrom]
  split
  · next none =>
    rw [cut] at none
    cases none
  · next same =>
    obtain rfl := Option.some.inj (cut.symm.trans same)
    split
    · rfl
    · next found =>
      rw [absent] at found
      cases found

theorem searchFrom_of_found {page lower : String} {start ahead : Nat} {bytes : Bytes}
    (cut : slice? lower start lower.utf8ByteSize = some bytes)
    (found : offset? (encode marker) bytes = some ahead)
    (within : start + ahead + (encode marker).length ≤ page.utf8ByteSize) :
    let behind := start + ahead + (encode marker).length
    let length := (((utf8 page).drop behind).takeWhile isVersionByte).length
    searchFrom page lower start =
      if length = 0 then searchFrom page lower behind
      else (slice? page behind (behind + length)).map some := by
  rw [searchFrom]
  split
  · next none =>
    rw [cut] at none
    cases none
  · next same =>
    obtain rfl := Option.some.inj (cut.symm.trans same)
    split
    · next absent =>
      rw [found] at absent
      cases absent
    · next here =>
      obtain rfl := Option.some.inj (found.symm.trans here)
      exact if_neg (Nat.not_lt.mpr within)

/-- Lower case keeps the length of a character. -/
theorem length_utf8EncodeChar_toLower (c : Char) :
    (String.utf8EncodeChar c.toLower).length = (String.utf8EncodeChar c).length := by
  by_cases upper : 0x41 ≤ c.toNat ∧ c.toNat ≤ 0x5A
  · have code := toNat_toLower c
    rw [if_pos upper] at code
    rw [Text.utf8EncodeChar_of_ascii (by omega), Text.utf8EncodeChar_of_ascii (by omega)]
    rfl
  · have same : c.toLower = c := by
      rw [← Char.toNat_inj, toNat_toLower, if_neg upper]
    rw [same]

theorem length_encode_toLower (cs : List Char) :
    (encode (cs.map Char.toLower)).length = (encode cs).length := by
  induction cs with
  | nil => rfl
  | cons c cs ih =>
      rw [List.map_cons, encode_cons, encode_cons, List.length_append, List.length_append, ih,
        length_utf8EncodeChar_toLower]

/-- The bytes of a character beyond ASCII are beyond ASCII. -/
theorem le_of_mem_utf8EncodeChar {b : UInt8} (beyond : 128 ≤ c.toNat)
    (member : b ∈ String.utf8EncodeChar c) : 0x80 ≤ b := by
  have code : c.val.toNat = c.toNat := rfl
  rw [String.utf8EncodeChar, code, if_neg (by omega)] at member
  rw [UInt8.le_iff_toNat_le]
  change 128 ≤ b.toNat
  split at member
  · simp only [List.mem_cons, List.not_mem_nil, or_false] at member
    rcases member with rfl | rfl <;> rw [UInt8.toNat_ofNat'] <;> omega
  · split at member
    · simp only [List.mem_cons, List.not_mem_nil, or_false] at member
      rcases member with rfl | rfl | rfl <;> rw [UInt8.toNat_ofNat'] <;> omega
    · simp only [List.mem_cons, List.not_mem_nil, or_false] at member
      rcases member with rfl | rfl | rfl | rfl <;> rw [UInt8.toNat_ofNat'] <;> omega

theorem isVersionByte_of_ascii (ascii : c.toNat < 128) :
    isVersionByte (UInt8.ofNat c.toNat) = isVersionChar c := by
  have code : (UInt8.ofNat c.toNat).toNat = c.toNat := by
    rw [UInt8.toNat_ofNat']
    omega
  rw [Bool.eq_iff_iff, isVersionChar_iff]
  simp only [isVersionByte, Bool.or_eq_true, Bool.and_eq_true, decide_eq_true_eq, beq_iff_eq,
    UInt8.le_iff_toNat_le, ← UInt8.toNat_inj, code, UInt8.reduceToNat]
  exact or_comm

/-- The version at the front of bytes is that at the front of the text. -/
theorem takeWhile_encode (cs : List Char) :
    (encode cs).takeWhile isVersionByte = encode (cs.takeWhile isVersionChar) := by
  induction cs with
  | nil => rfl
  | cons c cs ih =>
      rw [encode_cons]
      by_cases ascii : c.toNat < 128
      · rw [Text.utf8EncodeChar_of_ascii ascii, List.singleton_append, List.takeWhile_cons,
          List.takeWhile_cons, isVersionByte_of_ascii ascii, ih]
        split
        · rw [encode_cons, Text.utf8EncodeChar_of_ascii ascii, List.singleton_append]
        · rfl
      · obtain ⟨b, tail, bytes⟩ :=
          List.exists_cons_of_ne_nil (String.utf8EncodeChar_ne_nil (c := c))
        have beyond : 0x80 ≤ b :=
          le_of_mem_utf8EncodeChar (Nat.le_of_not_lt ascii) (bytes ▸ List.mem_cons_self)
        have byte : ¬isVersionByte b = true := by
          simp only [isVersionByte, Bool.or_eq_true, Bool.and_eq_true, decide_eq_true_eq,
            beq_iff_eq, UInt8.le_iff_toNat_le, ← UInt8.toNat_inj, UInt8.reduceToNat] at beyond ⊢
          omega
        have char : ¬isVersionChar c = true := by
          rw [isVersionChar_iff]
          omega
        rw [bytes, List.cons_append, List.takeWhile_cons_of_neg byte,
          List.takeWhile_cons_of_neg char, Text.encode_nil]

/-- A search for the marker in the copy finds the first marker of the page, and no
marker in front of it shows a version. -/
theorem offset?_marker (text : List Char) :
    (offset? (encode marker) (encode (text.map Char.toLower)) = none ∧ find? text = none) ∨
    ∃ front mark rest, text = front ++ mark ++ rest ∧ IsMarker mark ∧
      offset? (encode marker) (encode (text.map Char.toLower)) = some (encode front).length ∧
      find? text = find? (mark ++ rest) := by
  induction text with
  | nil => exact .inl ⟨by decide, rfl⟩
  | cons c text ih =>
      rw [List.map_cons, Text.offset?_encode_cons (by decide)]
      by_cases here : marker <+: c.toLower :: text.map Char.toLower
      · right
        obtain ⟨back, whole⟩ := here
        rw [← List.map_cons] at whole
        obtain ⟨mark, rest, split, lower, -⟩ := List.map_eq_append_iff.mp whole.symm
        exact ⟨[], mark, rest, split, isMarker_iff.mpr lower, if_pos ⟨back, whole⟩, by rw [split]⟩
      · have quiet : ¬Shows (c :: text) := by
          intro shows
          obtain ⟨d, -, begins⟩ := shows_iff_prefix.mp shows
          exact here ((List.prefix_append _ _).trans begins)
        have skipped : find? (c :: text) = find? text := by
          rw [find?, atFront?_eq_none_iff.mpr quiet]
        rw [if_neg here, skipped]
        rcases ih with ⟨absent, none⟩ | ⟨front, mark, rest, rfl, marks, found, same⟩
        · exact .inl ⟨by rw [absent, Option.map_none], none⟩
        · refine .inr ⟨c :: front, mark, rest, rfl, marks, ?_, same⟩
          rw [found, Option.map_some, length_utf8EncodeChar_toLower, encode_cons,
            List.length_append, Nat.add_comm]

/-- At a bound of characters the copy in lower case can be cut as the page can. -/
theorem slice?_toLower {page : String} {front : List Char} (split : page.toList = front ++ text) :
    slice? page.toLower (encode front).length page.toLower.utf8ByteSize =
      some (encode (text.map Char.toLower)) := by
  have lowered : page.toLower.toList = front.map Char.toLower ++ text.map Char.toLower := by
    change (page.map Char.toLower).toList = _
    rw [String.toList_map, split, List.map_append]
  rw [← length_encode_toLower, ← Text.length_utf8, Text.utf8_eq_encode, lowered]
  apply Text.slice?_of_split
  rw [lowered, List.append_nil]

/-- A version is cut out of the page by its length. -/
theorem slice?_takeWhile {page : String} {front : List Char} (split : page.toList = front ++ rest) :
    slice? page (encode front).length
        ((encode front).length + (encode (rest.takeWhile isVersionChar)).length) =
      some (encode (rest.takeWhile isVersionChar)) := by
  have whole : page.toList =
      front ++ rest.takeWhile isVersionChar ++ rest.dropWhile isVersionChar := by
    rw [split, List.append_assoc, List.takeWhile_append_dropWhile]
  rw [← List.length_append, ← encode_append]
  exact Text.slice?_of_split whole

/-- One turn of the search by offsets: behind the next marker there is a version, or the
search goes on there. -/
theorem searchFrom_of_isMarker {page : String} {front between : List Char}
    (split : page.toList = front ++ between ++ mark ++ rest) (marks : IsMarker mark)
    (found : offset? (encode marker) (encode ((between ++ mark ++ rest).map Char.toLower)) =
      some (encode between).length) :
    searchFrom page page.toLower (encode front).length =
      if rest.takeWhile isVersionChar = [] then
        searchFrom page page.toLower (encode (front ++ between ++ mark)).length
      else some (some (encode (rest.takeWhile isVersionChar))) := by
  have whole : page.toList = front ++ (between ++ mark ++ rest) := by
    simpa only [List.append_assoc] using split
  have cut := slice?_toLower whole
  have behind : (encode front).length + (encode between).length + (encode marker).length =
      (encode (front ++ between ++ mark)).length := by
    rw [← isMarker_iff.mp marks, length_encode_toLower]
    simp only [encode_append, List.length_append]
  have bytes : utf8 page = encode (front ++ between ++ mark) ++ encode rest := by
    rw [Text.utf8_eq_encode, split, encode_append]
  have within : (encode front).length + (encode between).length + (encode marker).length ≤
      page.utf8ByteSize := by
    rw [behind, ← Text.length_utf8, bytes, List.length_append]
    exact Nat.le_add_right _ _
  rw [searchFrom_of_found cut found within, behind, bytes, List.drop_left, takeWhile_encode,
    slice?_takeWhile split]
  simp only [List.length_eq_zero_iff, Text.encode_eq_nil_iff, Option.map_some]

/-- The search by offsets never cuts through a character, and finds what the search
by characters finds. -/
theorem searchFrom_eq {page : String} {front : List Char} (split : page.toList = front ++ text) :
    searchFrom page page.toLower (encode front).length = some ((find? text).map encode) := by
  induction size : text.length using Nat.strong_induction_on generalizing text front with
  | _ size ih =>
    subst size
    rcases offset?_marker text with ⟨absent, none⟩ | ⟨between, mark, rest, rfl, marks, found, same⟩
    · rw [searchFrom_of_absent (slice?_toLower split) absent, none]
      rfl
    · have whole : page.toList = front ++ between ++ mark ++ rest := by
        simpa only [List.append_assoc] using split
      have shorter : rest.length < (between ++ mark ++ rest).length := by
        have filled : 0 < mark.length := length_of_isMarker marks ▸ Nat.succ_pos _
        simp only [List.length_append]
        omega
      rw [searchFrom_of_isMarker whole marks found, same, find?_of_isMarker marks,
        ih rest.length shorter whole rfl]
      split <;> rfl

/-- The search by offsets succeeds on every page and finds what is found by
characters. -/
theorem search_eq (page : String) : search page = some ((inPage? page).map utf8) := by
  have whole : page.toList = [] ++ page.toList := rfl
  have found := searchFrom_eq whole
  rw [search, inPage?, Option.map_map]
  apply found.trans
  congr 2
  funext version
  rw [Function.comp_apply, Text.utf8_eq_encode, String.toList_ofList]

theorem inPage?_eq_some_iff {page version : String} :
    inPage? page = some version ↔ FirstVersion page.toList version.toList := by
  rw [← find?_eq_some_iff, inPage?, Option.map_eq_some_iff]
  constructor
  · rintro ⟨found, here, rfl⟩
    rw [here, String.toList_ofList]
  · intro here
    exact ⟨version.toList, here, String.ofList_toList⟩

theorem inPage?_eq_none_iff {page : String} :
    inPage? page = none ↔ ∀ i, ¬Shows (page.toList.drop i) := by
  rw [← find?_eq_none_iff, inPage?, Option.map_eq_none_iff]

/-- What is found on a page. It is the longest run of digits and dots behind the
first marker that has one right behind it, and nothing exactly if no marker has,
however many there are. A search that cuts the page at the offsets of a copy in
lower case ends with just that, and no cut of its goes through a character. So a
packed version is found again behind a marker, however that is spelled, if
neither the text in front shows a version nor the text behind goes on with one. -/
theorem inPage?_exact :
    (∀ page : String,
      (∀ version : String,
        inPage? page = some version ↔ FirstVersion page.toList version.toList) ∧
      (inPage? page = none ↔ ∀ i, ¬Shows (page.toList.drop i)) ∧
      search page = some ((inPage? page).map utf8)) ∧
    ∀ (packed : UInt32) (front mark back : String),
      (∀ i < front.toList.length, ¬Shows ((front ++ "CUPS/").toList.drop i)) →
      IsMarker mark.toList →
      (∀ c, back.toList.head? = some c → isVersionChar c = false) →
      inPage? (front ++ mark ++ format packed ++ back) = some (format packed) := by
  constructor
  · intro page
    exact ⟨fun version => inPage?_eq_some_iff, inPage?_eq_none_iff, search_eq page⟩
  · intro packed front mark back earlier marks stopped
    apply inPage?_eq_some_iff.mpr
    rw [String.toList_append] at earlier
    have shown := firstVersion_format packed marks earlier stopped
    simp only [String.toList_append, List.append_assoc] at shown ⊢
    exact shown

/-- Neither the two markers without a version nor the characters beyond ASCII
keep a version from being found. -/
theorem inPage?_exact_behindDecoys :
    inPage? ("cups/ für CUPS/" ++ "CuPs/" ++ format 0x020407 ++ " …") = some (format 0x020407) := by
  apply inPage?_exact.2
  · intro i within
    rw [← atFront?_eq_none_iff]
    revert i
    decide +kernel
  · rw [isMarker_iff]
    decide +kernel
  · intro c first
    obtain rfl : ' ' = c := Option.some.inj first
    rfl

end InternetPrinting.Version
