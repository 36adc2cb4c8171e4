import InternetPrinting.Text.Utf8
import Mathlib.Data.List.Basic

/-!
# Searching in the bytes of a text

A word of whole characters stands in the bytes of a text only where its
characters stand in the text, for no byte inside a character can begin another
one. So the offset that a search in the bytes finds is a bound of characters,
and cutting the text at such offsets gives back the characters between them.
-/

namespace InternetPrinting.Text

/-- The UTF-8 bytes of characters. -/
def encode (cs : List Char) : Bytes :=
  cs.flatMap String.utf8EncodeChar

theorem utf8_eq_encode (s : String) : utf8 s = encode s.toList := rfl

@[simp] theorem encode_nil : encode [] = [] := rfl

theorem encode_cons (c : Char) (cs : List Char) :
    encode (c :: cs) = String.utf8EncodeChar c ++ encode cs :=
  List.flatMap_cons ..

@[simp] theorem encode_append (cs ds : List Char) : encode (cs ++ ds) = encode cs ++ encode ds :=
  List.flatMap_append

theorem encode_eq_nil_iff {cs : List Char} : encode cs = [] ↔ cs = [] := by
  cases cs with
  | nil => simp
  | cons c cs => simp [encode_cons, String.utf8EncodeChar_ne_nil]

/-- The bytes of a character tell it, whatever follows. -/
theorem utf8EncodeChar_append_inj {c d : Char} {rest back : Bytes}
    (same : String.utf8EncodeChar c ++ rest = String.utf8EncodeChar d ++ back) :
    c = d ∧ rest = back := by
  have decoded : some c = some d := by
    rw [← ByteArray.utf8DecodeChar?_utf8EncodeChar_append (b := rest.toByteArray),
      ← List.toByteArray_append, same, List.toByteArray_append,
      ByteArray.utf8DecodeChar?_utf8EncodeChar_append]
  obtain rfl : c = d := Option.some.inj decoded
  exact ⟨rfl, List.append_cancel_left same⟩

/-- Bytes of whole characters are in front of others exactly if the characters
are. -/
theorem encode_prefix_iff {cs ds : List Char} : encode cs <+: encode ds ↔ cs <+: ds := by
  constructor
  · rintro ⟨rest, whole⟩
    induction cs generalizing ds with
    | nil => exact List.nil_prefix
    | cons c cs ih =>
        cases ds with
        | nil =>
            rw [encode_cons, List.append_assoc] at whole
            exact absurd (List.append_eq_nil_iff.mp whole).1 String.utf8EncodeChar_ne_nil
        | cons d ds =>
            rw [encode_cons, encode_cons, List.append_assoc] at whole
            obtain ⟨rfl, behind⟩ := utf8EncodeChar_append_inj whole
            exact List.cons_prefix_cons.mpr ⟨rfl, ih behind⟩
  · rintro ⟨rest, rfl⟩
    rw [encode_append]
    exact List.prefix_append _ _

/-- The offset of the first place where a word stands in bytes. -/
def offset? (word : Bytes) : Bytes → Option Nat
  | [] => if word = [] then some 0 else none
  | b :: rest => if word <+: b :: rest then some 0 else (offset? word rest).map (· + 1)

/-- Where the word does not stand the search goes on behind. -/
theorem offset?_append {word front back : Bytes}
    (absent : ∀ i < front.length, ¬word <+: front.drop i ++ back) :
    offset? word (front ++ back) = (offset? word back).map (· + front.length) := by
  induction front with
  | nil => simp
  | cons b front ih =>
      have here : ¬word <+: b :: (front ++ back) := absent 0 (Nat.succ_pos _)
      have later : ∀ i < front.length, ¬word <+: front.drop i ++ back :=
        fun i within => absent (i + 1) (Nat.succ_lt_succ within)
      rw [List.cons_append, offset?, if_neg here, ih later, Option.map_map]
      rfl

/-- A character does not begin inside another one. -/
theorem not_encode_prefix_inside {word : List Char} (filled : word ≠ []) (c : Char) (back : Bytes)
    {i : Nat} (inside : 0 < i) (within : i < (String.utf8EncodeChar c).length) :
    ¬encode word <+: (String.utf8EncodeChar c).drop i ++ back := by
  rintro ⟨rest, whole⟩
  obtain ⟨d, word, rfl⟩ := List.exists_cons_of_ne_nil filled
  have filled : 0 < (String.utf8EncodeChar d).length :=
    List.length_pos_iff.mpr String.utf8EncodeChar_ne_nil
  have first : (String.utf8EncodeChar d)[0] = (String.utf8EncodeChar c)[i] := by
    have left : 0 < ((String.utf8EncodeChar c).drop i).length := by
      rw [List.length_drop]
      omega
    rw [encode_cons, List.append_assoc] at whole
    have heads := congrArg (·[0]?) whole
    simpa [List.getElem?_append_left filled, List.getElem?_append_left left,
      List.getElem?_eq_getElem filled, List.getElem?_eq_getElem within] using heads
  have begins : (String.utf8EncodeChar c)[i].IsUTF8FirstByte := by
    rw [← first]
    exact UInt8.isUTF8FirstByte_getElem_utf8EncodeChar.mpr rfl
  exact absurd (UInt8.isUTF8FirstByte_getElem_utf8EncodeChar.mp begins) (by omega)

/-- A search for whole characters in the bytes of a text goes by characters. -/
theorem offset?_encode_cons {word : List Char} (filled : word ≠ []) (c : Char) (cs : List Char) :
    offset? (encode word) (encode (c :: cs)) =
      if word <+: c :: cs then some 0
      else (offset? (encode word) (encode cs)).map (· + (String.utf8EncodeChar c).length) := by
  by_cases here : word <+: c :: cs
  · rw [if_pos here]
    obtain ⟨b, tail, bytes⟩ := List.exists_cons_of_ne_nil (String.utf8EncodeChar_ne_nil (c := c))
    have stands : encode word <+: b :: (tail ++ encode cs) := by
      rw [← List.cons_append, ← bytes, ← encode_cons]
      exact encode_prefix_iff.mpr here
    rw [encode_cons, bytes, List.cons_append, offset?, if_pos stands]
  · rw [if_neg here, encode_cons]
    apply offset?_append
    intro i within
    rcases Nat.eq_zero_or_pos i with rfl | inside
    · rw [List.drop_zero, ← encode_cons, encode_prefix_iff]
      exact here
    · exact not_encode_prefix_inside filled c _ inside within

/-- The bytes between two offsets into a text, if neither cuts a character in
two or lies behind the end. -/
def slice? (s : String) (start stop : Nat) : Option Bytes :=
  if String.Pos.Raw.IsValid s ⟨start⟩ ∧ String.Pos.Raw.IsValid s ⟨stop⟩ ∧ start ≤ stop then
    some (((utf8 s).drop start).take (stop - start))
  else none

theorem isValid_length_encode {s : String} {front back : List Char}
    (split : s.toList = front ++ back) :
    String.Pos.Raw.IsValid s ⟨(encode front).length⟩ := by
  apply String.Pos.Raw.isValid_iff_exists_append.mpr
  refine ⟨String.ofList front, String.ofList back, ?_, ?_⟩
  · rw [← String.ofList_append, ← split, String.ofList_toList]
  · rw [String.Pos.Raw.ext_iff, String.byteIdx_rawEndPos, ← length_utf8, utf8_eq_encode,
      String.toList_ofList]

/-- A cut at bounds of characters gives the bytes of the characters between. -/
theorem slice?_of_split {s : String} {front middle back : List Char}
    (split : s.toList = front ++ middle ++ back) :
    slice? s (encode front).length (encode (front ++ middle)).length = some (encode middle) := by
  have start := isValid_length_encode (split.trans (List.append_assoc ..))
  have stop := isValid_length_encode split
  have le : (encode front).length ≤ (encode (front ++ middle)).length := by
    rw [encode_append, List.length_append]
    exact Nat.le_add_right _ _
  rw [slice?, if_pos ⟨start, stop, le⟩, utf8_eq_encode, split]
  simp only [encode_append, List.append_assoc, List.drop_left, List.length_append,
    Nat.add_sub_cancel_left, List.take_left]

end InternetPrinting.Text
