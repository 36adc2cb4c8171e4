import InternetPrinting.Proofs.Json.Scanning

/-!
# Strings in a text

Inside a string stand characters, short escapes and escaped units of sixteen bits. The
units are characters if each surrogate has its partner next to it, the high one first. So
what a string spells is told in two steps, and a string that spells no text may still
stand where nothing depends on its content.
-/

namespace InternetPrinting.Json

/-- A piece of a string: a character, or a unit given by its number. -/
inductive Piece
  | char (c : Char)
  | unit (u : Nat)

/-- What may stand between the quotation marks of a string, with its pieces. -/
inductive Spelled : List Char → List Piece → Prop
  | nil : Spelled [] []
  | plain {c : Char} {cs : List Char} {pieces : List Piece} (visible : 0x20 ≤ c.toNat)
      (quote : c ≠ '"') (backslash : c ≠ '\\') (behind : Spelled cs pieces) :
      Spelled (c :: cs) (.char c :: pieces)
  | escape {c meant : Char} {cs : List Char} {pieces : List Piece}
      (short : shortEscape? c = some meant) (behind : Spelled cs pieces) :
      Spelled ('\\' :: c :: cs) (.char meant :: pieces)
  | unit {a b c d : Char} {w x y z : Nat} {cs : List Char} {pieces : List Piece}
      (first : Text.Hex.value? a = some w) (second : Text.Hex.value? b = some x)
      (third : Text.Hex.value? c = some y) (last : Text.Hex.value? d = some z)
      (behind : Spelled cs pieces) :
      Spelled ('\\' :: 'u' :: a :: b :: c :: d :: cs)
        (.unit (w * 4096 + x * 256 + y * 16 + z) :: pieces)

/-- Pieces are the characters of a text. -/
inductive Means : List Piece → List Char → Prop
  | nil : Means [] []
  | char {c : Char} {pieces : List Piece} {cs : List Char} (behind : Means pieces cs) :
      Means (.char c :: pieces) (c :: cs)
  | unit {u : Nat} {pieces : List Piece} {cs : List Char} (high : Content.isHigh u = false)
      (low : Content.isLow u = false) (behind : Means pieces cs) :
      Means (.unit u :: pieces) (Char.ofNat u :: cs)
  | pair {u v : Nat} {pieces : List Piece} {cs : List Char} (high : Content.isHigh u = true)
      (low : Content.isLow v = true) (behind : Means pieces cs) :
      Means (.unit u :: .unit v :: pieces) (Content.paired u v :: cs)

/-- What a string with these pieces has for its content: a text, or nothing. -/
def Contains (pieces : List Piece) (content : Option String) : Prop :=
  ∀ s, content = some s ↔ Means pieces s.toList

theorem Contains.unique {pieces : List Piece} {content other : Option String}
    (contains : Contains pieces content) (again : Contains pieces other) : content = other :=
  Option.ext fun s => (contains s).trans (again s).symm

namespace Content

/-- Add a piece. -/
def add (content : Content) : Piece → Option Content
  | .char c => content.char c
  | .unit u => content.unit u

/-- The text, if there is one, when pieces are added to what is already there. -/
def behind? (content : Content) (pieces : List Piece) : Option String :=
  (pieces.foldlM add content).bind text?

section Reading

variable (before : List Char) (pieces : List Piece)

theorem behind?_cons (content : Content) (piece : Piece) :
    content.behind? (piece :: pieces) = (content.add piece).bind (·.behind? pieces) :=
  bind_foldlM_cons piece pieces

theorem behind?_char (c : Char) :
    behind? ⟨before, none⟩ (.char c :: pieces) = behind? ⟨c :: before, none⟩ pieces :=
  behind?_cons ..

theorem behind?_unit {u : Nat} (high : isHigh u = false) (low : isLow u = false) :
    behind? ⟨before, none⟩ (.unit u :: pieces) =
      behind? ⟨Char.ofNat u :: before, none⟩ pieces := by
  rw [behind?_cons]
  simp [add, Content.unit, high, low]

theorem behind?_low {u : Nat} (high : isHigh u = false) (low : isLow u = true) :
    behind? ⟨before, none⟩ (.unit u :: pieces) = none := by
  rw [behind?_cons]
  simp [add, Content.unit, high, low]

theorem behind?_pair {u v : Nat} (high : isHigh u = true) (low : isLow v = true) :
    behind? ⟨before, none⟩ (.unit u :: .unit v :: pieces) =
      behind? ⟨paired u v :: before, none⟩ pieces := by
  rw [behind?_cons]
  simp only [add, Content.unit, high, if_true, Option.bind_some]
  rw [behind?_cons]
  simp [add, Content.unit, low]

/-- Behind a high surrogate the low one has to come. -/
theorem exists_low {u : Nat} {s : String} (high : isHigh u = true)
    (found : behind? ⟨before, none⟩ (.unit u :: pieces) = some s) :
    ∃ v after, pieces = .unit v :: after ∧ isLow v = true := by
  rw [behind?_cons] at found
  simp only [add, Content.unit, high, if_true, Option.bind_some] at found
  cases pieces with
  | nil => cases found
  | cons piece after =>
    rw [behind?_cons, Option.bind_eq_some_iff] at found
    obtain ⟨next, added, _⟩ := found
    cases piece with
    | char c => cases added
    | unit v =>
      cases low : isLow v with
      | true => exact ⟨v, after, rfl, low⟩
      | false => simp [add, Content.unit, low] at added

end Reading

theorem behind?_of_means {pieces : List Piece} {cs : List Char} (means : Means pieces cs)
    (before : List Char) :
    behind? ⟨before, none⟩ pieces = some (String.ofList (before.reverse ++ cs)) := by
  induction means generalizing before with
  | nil => simp [behind?, text?]
  | char means ih => rw [behind?_char, ih, List.reverse_cons, List.append_assoc]; rfl
  | unit high low means ih =>
    rw [behind?_unit _ _ high low, ih, List.reverse_cons, List.append_assoc]
    rfl
  | pair high low means ih =>
    rw [behind?_pair _ _ high low, ih, List.reverse_cons, List.append_assoc]
    rfl

/-- A text is found only if the pieces mean one. -/
theorem exists_means {s : String} : ∀ (pieces : List Piece) (before : List Char),
    behind? ⟨before, none⟩ pieces = some s →
      ∃ cs, Means pieces cs ∧ s = String.ofList (before.reverse ++ cs)
  | [], before, found => ⟨[], .nil, by simpa [behind?, text?] using found.symm⟩
  | .char c :: pieces, before, found => by
    rw [behind?_char] at found
    obtain ⟨cs, means, rfl⟩ := exists_means pieces (c :: before) found
    exact ⟨c :: cs, .char means, by simp⟩
  | .unit u :: pieces, before, found => by
    cases high : isHigh u with
    | true =>
      obtain ⟨v, after, rfl, low⟩ := exists_low before pieces high found
      rw [behind?_pair _ _ high low] at found
      obtain ⟨cs, means, rfl⟩ := exists_means after (paired u v :: before) found
      exact ⟨paired u v :: cs, .pair high low means, by simp⟩
    | false =>
      cases low : isLow u with
      | true =>
        rw [behind?_low _ _ high low] at found
        cases found
      | false =>
        rw [behind?_unit _ _ high low] at found
        obtain ⟨cs, means, rfl⟩ := exists_means pieces (Char.ofNat u :: before) found
        exact ⟨Char.ofNat u :: cs, .unit high low means, by simp⟩

/-- The pieces of a string, added one by one, give its content. -/
theorem contains_behind? (pieces : List Piece) : Contains pieces (behind? {} pieces) := by
  intro s
  constructor
  · intro found
    obtain ⟨cs, means, rfl⟩ := exists_means pieces [] found
    simpa using means
  · intro means
    simpa using behind?_of_means means []

end Content

end InternetPrinting.Json
