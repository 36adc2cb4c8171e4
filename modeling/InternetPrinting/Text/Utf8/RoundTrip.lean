import InternetPrinting.Text.Utf8

/-!
# Reading back UTF-8

Reading the bytes of a text gives its characters one by one and nothing else,
so both the lenient and the strict reader give the text back.
-/

namespace InternetPrinting.Text

theorem start_of_opens {items : List (Option Char)} {b : UInt8} {u : Unfinished}
    (h : lead b = .opens u) : Reader.start items b = ⟨items, some u⟩ := by
  simp [Reader.start, h]

theorem step_of_more {items : List (Option Char)} {u : Unfinished} {b : UInt8}
    (low : u.low ≤ b) (high : b ≤ u.high) (more : u.missing ≠ 1) :
    Reader.step ⟨items, some u⟩ b =
      ⟨items, some ⟨u.code * 64 + (b.toNat - 0x80), u.missing - 1, 0x80, 0xBF⟩⟩ := by
  simp [Reader.step, low, high, more]

theorem step_of_last {items : List (Option Char)} {u : Unfinished} {b : UInt8}
    (low : u.low ≤ b) (high : b ≤ u.high) (last : u.missing = 1) :
    Reader.step ⟨items, some u⟩ b =
      ⟨some (Char.ofNat (u.code * 64 + (b.toNat - 0x80))) :: items, none⟩ := by
  simp [Reader.step, low, high, last]

/-- Bytes of the form `10xxxxxx` continue a character. -/
theorem continues {b : UInt8} {n : Nat} (h : b.toNat = n % 64 + 128) :
    0x80 ≤ b ∧ b ≤ 0xBF := by
  simp only [UInt8.le_iff_toNat_le, h, UInt8.reduceToNat]
  omega

theorem lead_of_two {b : UInt8} {n : Nat} (h : b.toNat = n / 64 + 192) (low : 0x80 ≤ n)
    (high : n < 0x800) : lead b = .opens ⟨n / 64, 1, 0x80, 0xBF⟩ := by
  simp only [lead, UInt8.lt_iff_toNat_lt, h, UInt8.reduceToNat]
  rw [if_neg (by omega), if_neg (by omega), if_pos (by omega)]
  simp

theorem lead_of_three {b : UInt8} {n : Nat} (h : b.toNat = n / 4096 + 224) (high : n < 0x10000) :
    lead b = .opens ⟨n / 4096, 2, if b = 0xE0 then 0xA0 else 0x80,
      if b = 0xED then 0x9F else 0xBF⟩ := by
  simp only [lead, UInt8.lt_iff_toNat_lt, h, UInt8.reduceToNat]
  rw [if_neg (by omega), if_neg (by omega), if_neg (by omega), if_pos (by omega)]
  simp

theorem lead_of_four {b : UInt8} {n : Nat} (h : b.toNat = n / 262144 + 240)
    (high : n < 0x110000) :
    lead b = .opens ⟨n / 262144, 3, if b = 0xF0 then 0x90 else 0x80,
      if b = 0xF4 then 0x8F else 0xBF⟩ := by
  simp only [lead, UInt8.lt_iff_toNat_lt, h, UInt8.reduceToNat]
  rw [if_neg (by omega), if_neg (by omega), if_neg (by omega), if_neg (by omega),
    if_pos (by omega)]
  simp

/-- The bytes of a character are read as that character. -/
theorem foldl_step_utf8EncodeChar (c : Char) (items : List (Option Char)) :
    (String.utf8EncodeChar c).foldl Reader.step ⟨items, none⟩ = ⟨some c :: items, none⟩ := by
  have valid : c.toNat < 0xD800 ∨ 0xDFFF < c.toNat ∧ c.toNat < 0x110000 := c.valid
  have back : Char.ofNat c.toNat = c := Char.ofNat_toNat c
  have value : c.val.toNat = c.toNat := rfl
  unfold String.utf8EncodeChar
  simp only [value]
  generalize c.toNat = n at *
  by_cases one : n ≤ 127
  · have first : (UInt8.ofNat n).toNat = n := by simp; omega
    have small : UInt8.ofNat n < 0x80 := by
      simp only [UInt8.lt_iff_toNat_lt, first, UInt8.reduceToNat]
      omega
    simp [one, Reader.step, Reader.start, lead, small, first, back]
  have last : (UInt8.ofNat (n % 64 + 128)).toNat = n % 64 + 128 := by simp; omega
  by_cases two : n ≤ 2047
  · have first : (UInt8.ofNat (n / 64 % 32 + 192)).toNat = n / 64 + 192 := by simp; omega
    rw [if_neg one, if_pos two]
    simp only [List.foldl_cons, List.foldl_nil]
    rw [show Reader.step ⟨items, none⟩ (UInt8.ofNat (n / 64 % 32 + 192)) = _ from
        start_of_opens (lead_of_two first (by omega) (by omega)),
      step_of_last (continues last).1 (continues last).2 rfl, last]
    simp only
    rw [show n / 64 * 64 + (n % 64 + 128 - 128) = n by omega, back]
  have middle : (UInt8.ofNat (n / 64 % 64 + 128)).toNat = n / 64 % 64 + 128 := by simp; omega
  by_cases three : n ≤ 65535
  · have first : (UInt8.ofNat (n / 4096 % 16 + 224)).toNat = n / 4096 + 224 := by simp; omega
    rw [if_neg one, if_neg two, if_pos three]
    simp only [List.foldl_cons, List.foldl_nil]
    rw [show Reader.step ⟨items, none⟩ (UInt8.ofNat (n / 4096 % 16 + 224)) = _ from
        start_of_opens (lead_of_three first (by omega)),
      step_of_more ?low ?high (show 2 ≠ 1 by decide),
      step_of_last (continues last).1 (continues last).2 rfl, last, middle]
    · simp only
      rw [show (n / 4096 * 64 + (n / 64 % 64 + 128 - 128)) * 64 + (n % 64 + 128 - 128) = n by
        omega, back]
    case low =>
      simp only [UInt8.le_iff_toNat_le, ← UInt8.toNat_inj, first, middle]
      split <;> simp only [UInt8.reduceToNat] at * <;> omega
    case high =>
      simp only [UInt8.le_iff_toNat_le, ← UInt8.toNat_inj, first, middle]
      split <;> simp only [UInt8.reduceToNat] at * <;> omega
  have second : (UInt8.ofNat (n / 4096 % 64 + 128)).toNat = n / 4096 % 64 + 128 := by
    simp; omega
  have first : (UInt8.ofNat (n / 262144 % 8 + 240)).toNat = n / 262144 + 240 := by simp; omega
  rw [if_neg one, if_neg two, if_neg three]
  simp only [List.foldl_cons, List.foldl_nil]
  rw [show Reader.step ⟨items, none⟩ (UInt8.ofNat (n / 262144 % 8 + 240)) = _ from
      start_of_opens (lead_of_four first (by omega)),
    step_of_more ?low ?high (show 3 ≠ 1 by decide),
    step_of_more (continues middle).1 (continues middle).2 (show 2 ≠ 1 by decide),
    step_of_last (continues last).1 (continues last).2 rfl, last, middle, second]
  · simp only
    rw [show ((n / 262144 * 64 + (n / 4096 % 64 + 128 - 128)) * 64 + (n / 64 % 64 + 128 - 128)) *
      64 + (n % 64 + 128 - 128) = n by omega, back]
  case low =>
    simp only [UInt8.le_iff_toNat_le, ← UInt8.toNat_inj, first, second]
    split <;> simp only [UInt8.reduceToNat] at * <;> omega
  case high =>
    simp only [UInt8.le_iff_toNat_le, ← UInt8.toNat_inj, first, second]
    split <;> simp only [UInt8.reduceToNat] at * <;> omega

theorem foldl_step_flatMap (cs : List Char) (items : List (Option Char)) :
    (cs.flatMap String.utf8EncodeChar).foldl Reader.step ⟨items, none⟩ =
      ⟨(cs.map some).reverse ++ items, none⟩ := by
  induction cs generalizing items with
  | nil => rfl
  | cons c rest ih =>
      rw [List.flatMap_cons, List.foldl_append, foldl_step_utf8EncodeChar, ih]
      simp

/-- The bytes of a text are read as its characters. -/
theorem characters_utf8 (s : String) : characters (utf8 s) = s.toList.map some := by
  rw [characters, utf8, show ({} : Reader) = ⟨[], none⟩ from rfl, foldl_step_flatMap]
  simp [Reader.finish]

@[simp] theorem lossy_utf8 (s : String) : lossy (utf8 s) = s := by
  rw [lossy, characters_utf8, List.map_map]
  have same : ((fun c : Option Char => c.getD '\uFFFD') ∘ some) = id := rfl
  rw [same, List.map_id, String.ofList_toList]

@[simp] theorem strict?_utf8 (s : String) : strict? (utf8 s) = some s := by
  have all : ∀ cs : List Char, (cs.map some).mapM id = some cs := by
    intro cs
    induction cs with
    | nil => rfl
    | cons c rest ih => simp [List.mapM_cons, ih]
  rw [strict?, characters_utf8, all]
  simp

theorem utf8_injective : Function.Injective utf8 := by
  intro s t same
  apply Option.some.inj
  calc
    some s = strict? (utf8 s) := (strict?_utf8 s).symm
    _ = strict? (utf8 t) := by rw [same]
    _ = some t := strict?_utf8 t

end InternetPrinting.Text
