import InternetPrinting.Settings.Json
import Mathlib.Data.List.Forall2
import Mathlib.Tactic.IntervalCases

/-!
# Texts that are read as tokens

A text is read as some tokens if the scanner adds them wherever it stands between
tokens. A number is the exception, since only the character behind it ends it. So a
text is also said to be read inside another one, where such a character follows. What
is written for a string, for a number and for a word is read as their token.
-/

namespace InternetPrinting.Json

section Steps

variable {α β : Type} {f : β → α → Option β} {state next : β}

theorem foldlM_append_of_some {l : List α} (read : l.foldlM f state = some next)
    (rest : List α) : (l ++ rest).foldlM f state = rest.foldlM f next := by
  rw [List.foldlM_append, read]
  rfl

theorem foldlM_cons_of_some {a : α} (read : f state a = some next) (rest : List α) :
    (a :: rest).foldlM f state = rest.foldlM f next := by
  rw [List.foldlM_cons, read]
  rfl

/-- What becomes of a list in the end, by its first element. -/
theorem bind_foldlM_cons {γ : Type} {finish : β → Option γ} (a : α) (rest : List α) :
    ((a :: rest).foldlM f state).bind finish =
      (f state a).bind fun next => (rest.foldlM f next).bind finish := by
  rw [List.foldlM_cons]
  cases f state a <;> rfl

end Steps

/-- A text is read as tokens wherever the scanner stands between tokens. -/
def Scans (cs : List Char) (tokens : List Token) : Prop :=
  ∀ before, cs.foldlM Scanner.step ⟨before, .between⟩ = some ⟨tokens.reverse ++ before, .between⟩

/-- A character that ends every number. -/
def EndsNumber (c : Char) : Prop :=
  ∀ phase : Phase, phase.mayEnd = true → phase.next? c = none

/-- A text is read as tokens in front of any character that ends a number. -/
def ScansInside (cs : List Char) (tokens : List Token) : Prop :=
  ∀ c rest more, EndsNumber c → Scans (c :: rest) more → Scans (cs ++ c :: rest) (tokens ++ more)

section Rules

variable {cs rest : List Char} {tokens more : List Token}

theorem Scans.nil : Scans [] [] := fun _ => rfl

theorem Scans.append (scans : Scans cs tokens) (behind : Scans rest more) :
    Scans (cs ++ rest) (tokens ++ more) := by
  intro before
  rw [foldlM_append_of_some (scans before), behind, List.reverse_append, List.append_assoc]

theorem Scans.inside (scans : Scans cs tokens) : ScansInside cs tokens :=
  fun _ _ _ _ behind => scans.append behind

theorem Scans.scan (scans : Scans cs tokens) : scan cs = some tokens := by
  have read := scans []
  unfold Json.scan
  rw [read]
  simp [Scanner.finish]

theorem Scans.append_inside (scans : Scans cs tokens) (behind : ScansInside rest more) :
    ScansInside (cs ++ rest) (tokens ++ more) := by
  intro c last further ends continued
  rw [List.append_assoc, List.append_assoc]
  exact scans.append (behind c last further ends continued)

/-- A mark behind a text that ends with a number. -/
theorem ScansInside.cons {c : Char} {mark : Token} (inside : ScansInside cs tokens)
    (ends : EndsNumber c) (marks : Scans [c] [mark]) (behind : ScansInside rest more) :
    ScansInside (cs ++ c :: rest) (tokens ++ mark :: more) := by
  intro next last further stops continued
  rw [List.append_assoc, List.append_assoc]
  exact inside c _ _ ends (marks.append (behind next last further stops continued))

/-- Texts with a mark between them. -/
theorem ScansInside.intercalate {c : Char} {mark : Token} (ends : EndsNumber c)
    (marks : Scans [c] [mark]) {texts : List (List Char)} {parts : List (List Token)}
    (all : List.Forall₂ ScansInside texts parts) :
    ScansInside ([c].intercalate texts) ([mark].intercalate parts) := by
  induction all with
  | nil => exact Scans.nil.inside
  | @cons text part texts parts inside all ih =>
    cases all with
    | nil => simpa only [List.intercalate_singleton] using inside
    | cons next all =>
      rw [List.intercalate_cons_cons, List.intercalate_cons_cons, List.append_assoc,
        List.append_assoc]
      exact inside.cons ends marks ih

end Rules

section Marks

theorem scans_punctuation {c : Char} {mark : Token} (mark? : punctuation? c = some mark)
    (space : isSpace c = false) : Scans [c] [mark] := by
  intro before
  apply foldlM_cons_of_some
  simp [Scanner.step, Scanner.begin, space, mark?]

theorem scans_comma : Scans [','] [.comma] := scans_punctuation rfl rfl

/-- No mark can stand inside a number. -/
theorem endsNumber_of_punctuation {c : Char} {mark : Token} (mark? : punctuation? c = some mark) :
    EndsNumber c := by
  intro phase _
  unfold punctuation? at mark?
  split at mark?
  case h_7 => cases mark?
  all_goals cases phase <;> rfl

end Marks

section Words

theorem scans_null : Scans ['n', 'u', 'l', 'l'] [.null] := fun _ => rfl

theorem scans_bool (b : Bool) : Scans (if b then "true" else "false").toList [.bool b] := by
  cases b <;> exact fun _ => rfl

end Words

section Strings

open Settings (quoted quotedChar)

variable (tokens : List Token) (chars : List Char)

theorem unit_of_control {n : Nat} (control : n < 0x20) :
    Content.unit ⟨chars, none⟩ n = some ⟨Char.ofNat n :: chars, none⟩ := by
  have high : Content.isHigh n = false := by simp [Content.isHigh]; omega
  have low : Content.isLow n = false := by simp [Content.isLow]; omega
  simp [Content.unit, high, low]

/-- A character is read back from what is written for it inside a string. -/
theorem foldlM_quotedChar (c : Char) :
    (quotedChar c).foldlM Scanner.step ⟨tokens, .text (some ⟨chars, none⟩)⟩ =
      some ⟨tokens, .text (some ⟨c :: chars, none⟩)⟩ := by
  unfold quotedChar
  split_ifs with quote backslash backspace feed line carriage tab control
  case pos => subst quote; rfl
  case pos => subst backslash; rfl
  case pos => subst backspace; rfl
  case pos => subst feed; rfl
  case pos => subst line; rfl
  case pos => subst carriage; rfl
  case pos => subst tab; rfl
  case pos =>
    -- Behind two zeros the two digits are the code, which is below every surrogate.
    have high : Text.Hex.value? (Text.Hex.digit (c.toNat / 16)) = some (c.toNat / 16) :=
      Text.Hex.value?_digit (by omega)
    have low : Text.Hex.value? (Text.Hex.digit (c.toNat % 16)) = some (c.toNat % 16) :=
      Text.Hex.value?_digit (by omega)
    have zero : Text.Hex.value? '0' = some 0 := rfl
    have whole : c.toNat / 16 * 16 + c.toNat % 16 = c.toNat := by omega
    simp [Scanner.step, zero, high, low, whole, unit_of_control chars control,
      Char.ofNat_toNat]
  case neg =>
    apply foldlM_cons_of_some
    simp [Scanner.step, quote, backslash, control, Content.char]

theorem foldlM_flatMap_quotedChar (cs : List Char) :
    (cs.flatMap quotedChar).foldlM Scanner.step ⟨tokens, .text (some ⟨chars, none⟩)⟩ =
      some ⟨tokens, .text (some ⟨cs.reverse ++ chars, none⟩)⟩ := by
  induction cs generalizing chars with
  | nil => rfl
  | cons c cs ih =>
    rw [List.flatMap_cons, foldlM_append_of_some (foldlM_quotedChar tokens chars c), ih]
    simp

/-- A string is read back, whatever characters it has. -/
theorem scans_quoted (s : String) : Scans (quoted s) [.text (some s)] := by
  intro before
  have opened : Scanner.step ⟨before, .between⟩ '"' = some ⟨before, .text (some {})⟩ := rfl
  unfold quoted
  rw [foldlM_cons_of_some opened,
    foldlM_append_of_some (foldlM_flatMap_quotedChar before [] s.toList)]
  apply foldlM_cons_of_some
  simp [Scanner.step, Content.text?]

end Strings

section Numbers

/-- The phase behind the digits of a number. -/
def phaseOf (n : Nat) : Phase :=
  if n = 0 then .zero else .digits

theorem mayEnd_phaseOf (n : Nat) : (phaseOf n).mayEnd = true := by
  unfold phaseOf
  split <;> rfl

theorem foldlM_digitChar (before : List Token) {n : Nat} (digit : n < 10) :
    [n.digitChar].foldlM Scanner.step ⟨before, .between⟩ =
      some ⟨before, .number (phaseOf n) (some n)⟩ := by
  interval_cases n <;> rfl

theorem digitValue_digitChar {n : Nat} (digit : n < 10) : digitValue n.digitChar = n := by
  rw [digitValue, Nat.toNat_digitChar_of_lt_ten digit]
  exact Nat.add_sub_cancel_left ..

/-- The digits of a number are read as its value. -/
theorem foldlM_toDigits (before : List Token) (n : Nat) :
    (Nat.toDigits 10 n).foldlM Scanner.step ⟨before, .between⟩ =
      some ⟨before, .number (phaseOf n) (some n)⟩ := by
  -- All digits but the last are those of a tenth of the number.
  induction n using Nat.strongRecOn with
  | _ n ih =>
    rcases lt_or_ge n 10 with digit | large
    · rw [Nat.toDigits_of_lt_base digit]
      exact foldlM_digitChar before digit
    · have front : phaseOf (n / 10) = .digits := if_neg (by omega)
      have whole : phaseOf n = .digits := if_neg (by omega)
      have last : n % 10 < 10 := Nat.mod_lt _ (by decide)
      rw [Nat.toDigits_of_base_le (by decide) large,
        foldlM_append_of_some (ih (n / 10) (by omega)), front, whole]
      apply foldlM_cons_of_some
      have value : n / 10 * 10 + n % 10 = n := by omega
      simp [Scanner.step, Phase.next?, Nat.isDigit_digitChar, last, digitValue_digitChar last,
        value]

theorem scansInside_toDigits (n : Nat) : ScansInside (Nat.toDigits 10 n) [.number (some n)] := by
  intro c rest more ends behind before
  rw [foldlM_append_of_some (foldlM_toDigits before n)]
  -- The next character ends the number and is then read as if it stood between tokens.
  have next := behind (.number (some n) :: before)
  have step : Scanner.step ⟨before, .number (phaseOf n) (some n)⟩ c =
      Scanner.step ⟨.number (some n) :: before, .between⟩ c := by
    simp only [Scanner.step, ends _ (mayEnd_phaseOf n), mayEnd_phaseOf, if_true]
  rw [List.foldlM_cons, step, ← List.foldlM_cons, next]
  simp

end Numbers

end InternetPrinting.Json
