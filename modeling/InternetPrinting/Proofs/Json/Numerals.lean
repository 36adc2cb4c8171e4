import InternetPrinting.Json.Token
import Mathlib.Computability.Language

/-!
# Numbers in a text

A number has a sign or none, a whole part without zeros in front, and perhaps a fraction
and an exponent. These are languages, put together from classes of characters. What may
still follow is given for each phase of reading a number: it begins with a character that
leads to a next phase and goes on as that phase allows, and it is empty just where a number
may end.
-/

namespace InternetPrinting.Json.Numeral

open scoped Computability

/-- The words of a single character from a class. -/
def letter (p : Char → Prop) : Language Char :=
  {word | ∃ c, p c ∧ word = [c]}

section Words

variable {p : Char → Prop} {l m : Language Char} {c : Char} {cs : List Char}

@[simp] theorem mem_sup : cs ∈ l ⊔ m ↔ cs ∈ l ∨ cs ∈ m := Iff.rfl

@[simp] theorem nil_notMem_letter : [] ∉ letter p := by
  rintro ⟨c, _, empty⟩
  cases empty

@[simp] theorem nil_mem_mul : [] ∈ l * m ↔ [] ∈ l ∧ [] ∈ m := by
  simp [Language.mem_mul]

@[simp] theorem cons_mem_letter_mul : c :: cs ∈ letter p * l ↔ p c ∧ cs ∈ l := by
  constructor
  · rintro ⟨_, ⟨d, is, rfl⟩, rest, mem, same⟩
    cases same
    exact ⟨is, mem⟩
  · rintro ⟨is, mem⟩
    exact ⟨[c], ⟨c, is, rfl⟩, cs, mem, rfl⟩

/-- A word of characters from a class and one of a language behind it: the first
character is from the class, or the word of the language is everything. -/
theorem cons_mem_kstar_mul :
    c :: cs ∈ (letter p)∗ * l ↔ c :: cs ∈ l ∨ p c ∧ cs ∈ (letter p)∗ * l := by
  have unfolded : (letter p)∗ * l = l + letter p * ((letter p)∗ * l) := by
    conv_lhs => rw [← Language.one_add_self_mul_kstar_eq_kstar]
    rw [add_mul, one_mul, mul_assoc]
  rw [unfolded, Language.mem_add, cons_mem_letter_mul, ← unfolded]

theorem cons_mem_kstar : c :: cs ∈ (letter p)∗ ↔ p c ∧ cs ∈ (letter p)∗ := by
  simpa using cons_mem_kstar_mul (l := 1)

end Words

/-- A digit. -/
def digit : Language Char := letter fun c => c.isDigit = true

/-- Digits, at least one of them. -/
def digits : Language Char := digit * digit∗

/-- The part of a number in front of its fraction. -/
def whole : Language Char :=
  letter (· = '0') + letter (fun c => c.isDigit = true ∧ c ≠ '0') * digit∗

def fraction : Language Char := 1 + letter (· = '.') * digits

def exponentSign : Language Char := 1 + letter fun c => c = '+' ∨ c = '-'

def exponent : Language Char := 1 + letter (fun c => c = 'e' ∨ c = 'E') * (exponentSign * digits)

/-- Every number. -/
def number : Language Char :=
  (1 + letter (· = '-')) * (whole * (fraction * exponent))

/-- The value of a text that is nothing but digits. -/
def natural? (cs : List Char) : Option Nat :=
  if cs.all Char.isDigit then some (Nat.ofDigitChars 10 cs 0) else none

section Phases

/-- What may still follow in a phase of reading a number. -/
def rest : Phase → Language Char
  | .sign => whole * (fraction * exponent)
  | .zero => fraction * exponent
  | .digits => digit∗ * (fraction * exponent)
  | .point => digits * exponent
  | .fraction => digit∗ * exponent
  | .mark => exponentSign * digits
  | .markSign => digits
  | .exponent => digit∗

theorem nil_mem_rest {phase : Phase} : [] ∈ rest phase ↔ phase.mayEnd = true := by
  cases phase <;>
    simp [rest, whole, fraction, exponent, exponentSign, digits, digit, Phase.mayEnd,
      Language.nil_mem_kstar]

variable {c : Char} {cs : List Char}

theorem cons_mem_exponent : c :: cs ∈ exponent ↔ (c = 'e' ∨ c = 'E') ∧ cs ∈ rest .mark := by
  simp [exponent, rest]

theorem cons_mem_rest_sign : c :: cs ∈ rest .sign ↔
    c = '0' ∧ cs ∈ rest .zero ∨ (c.isDigit = true ∧ c ≠ '0') ∧ cs ∈ rest .digits := by
  rw [rest, whole, add_mul, mul_assoc, Language.mem_add, cons_mem_letter_mul,
    cons_mem_letter_mul, rest, rest]

theorem cons_mem_rest_zero : c :: cs ∈ rest .zero ↔
    (c = 'e' ∨ c = 'E') ∧ cs ∈ rest .mark ∨ c = '.' ∧ cs ∈ rest .point := by
  rw [rest, fraction, add_mul, one_mul, mul_assoc, Language.mem_add, cons_mem_exponent,
    cons_mem_letter_mul, rest]

theorem cons_mem_rest_digits : c :: cs ∈ rest .digits ↔
    c :: cs ∈ rest .zero ∨ c.isDigit = true ∧ cs ∈ rest .digits :=
  cons_mem_kstar_mul

theorem cons_mem_rest_point :
    c :: cs ∈ rest .point ↔ c.isDigit = true ∧ cs ∈ rest .fraction := by
  rw [rest, digits, mul_assoc]
  exact cons_mem_letter_mul

theorem cons_mem_rest_fraction : c :: cs ∈ rest .fraction ↔
    (c = 'e' ∨ c = 'E') ∧ cs ∈ rest .mark ∨ c.isDigit = true ∧ cs ∈ rest .fraction := by
  rw [← cons_mem_exponent]
  exact cons_mem_kstar_mul

theorem cons_mem_rest_mark : c :: cs ∈ rest .mark ↔
    c :: cs ∈ rest .markSign ∨ (c = '+' ∨ c = '-') ∧ cs ∈ rest .markSign := by
  rw [rest, exponentSign, add_mul, one_mul, Language.mem_add, cons_mem_letter_mul, rest]

theorem cons_mem_rest_markSign :
    c :: cs ∈ rest .markSign ↔ c.isDigit = true ∧ cs ∈ rest .exponent :=
  cons_mem_letter_mul

theorem cons_mem_rest_exponent :
    c :: cs ∈ rest .exponent ↔ c.isDigit = true ∧ cs ∈ rest .exponent :=
  cons_mem_kstar

/-- What may follow in a phase begins with a character that leads on, and what may follow
then is behind it. -/
theorem cons_mem_rest {phase : Phase} :
    c :: cs ∈ rest phase ↔ ∃ next, phase.next? c = some next ∧ cs ∈ rest next := by
  -- The characters that may come next are told apart, so the order of the tests is no matter.
  have point : c.isDigit = true → c ≠ '.' := by rintro is rfl; cases is
  have mark : c.isDigit = true → ¬(c = 'e' ∨ c = 'E') := by
    rintro is (rfl | rfl) <;> cases is
  have sign : c.isDigit = true → ¬(c = '+' ∨ c = '-') := by
    rintro is (rfl | rfl) <;> cases is
  cases phase <;>
    simp only [Phase.next?, cons_mem_rest_sign, cons_mem_rest_zero, cons_mem_rest_digits,
      cons_mem_rest_point, cons_mem_rest_fraction, cons_mem_rest_mark, cons_mem_rest_markSign,
      cons_mem_rest_exponent] <;>
    split_ifs <;> simp_all

end Phases

section Values

/-- The value of a number with digits behind it, if nothing but digits is there. -/
def carry (natural : Option Nat) (cs : List Char) : Option Nat :=
  if cs.all Char.isDigit then natural.map (Nat.ofDigitChars 10 cs) else none

theorem carry_nil (natural : Option Nat) : carry natural [] = natural := by
  cases natural <;> rfl

theorem carry_cons (natural : Option Nat) (c : Char) (cs : List Char) :
    carry natural (c :: cs) =
      carry (if c.isDigit then natural.map (· * 10 + digitValue c) else none) cs := by
  unfold carry
  cases natural <;> by_cases digit : c.isDigit = true <;>
    simp [digit, Nat.ofDigitChars_cons, digitValue, Nat.mul_comm]

end Values

section Starts

variable {c : Char} {cs : List Char} {phase : Phase} {natural : Option Nat}

/-- How a number begins: the phase behind its first character, and the value so far. -/
def start? (c : Char) : Option (Phase × Option Nat) :=
  if c = '-' then some (.sign, none)
  else if c = '0' then some (.zero, some 0)
  else if c.isDigit then some (.digits, some (digitValue c))
  else none

theorem nil_notMem_number : [] ∉ number := by
  simp [number, whole]

theorem cons_mem_number :
    c :: cs ∈ number ↔ ∃ phase natural, start? c = some (phase, natural) ∧ cs ∈ rest phase := by
  have front : c :: cs ∈ number ↔ c :: cs ∈ rest .sign ∨ c = '-' ∧ cs ∈ rest .sign := by
    rw [number, add_mul, one_mul, Language.mem_add, cons_mem_letter_mul, rest]
  rw [front, cons_mem_rest]
  unfold start?
  simp only [Phase.next?]
  by_cases minus : c = '-'
  · subst minus
    simp
  · split_ifs <;> simp_all

/-- The digits of a number count from its first one, and behind a sign they do not. -/
theorem natural?_of_start (starts : start? c = some (phase, natural)) :
    natural? (c :: cs) = carry natural cs := by
  have whole : natural? (c :: cs) =
      carry (if c.isDigit then some (digitValue c) else none) cs := by
    change carry (some 0) (c :: cs) = _
    rw [carry_cons]
    simp
  unfold start? at starts
  rw [whole]
  split_ifs at starts with minus zero digit <;> cases starts
  · subst minus; rfl
  · subst zero; rfl
  · rw [if_pos digit]

end Starts

end InternetPrinting.Json.Numeral
