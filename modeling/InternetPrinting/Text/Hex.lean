import InternetPrinting.Bytes

/-!
# Hexadecimal digits

Two digits for a byte, written in lower case where bytes are shown and in
upper case where they are encoded. Digits of either case are read.
-/

namespace InternetPrinting.Text.Hex

/-- The lower-case digit for a number below sixteen. -/
def digit (n : Nat) : Char :=
  if n < 10 then Char.ofNat (48 + n) else Char.ofNat (87 + n)

/-- The upper-case digit for a number below sixteen. -/
def upperDigit (n : Nat) : Char :=
  if n < 10 then Char.ofNat (48 + n) else Char.ofNat (55 + n)

/-- The number that a digit stands for. -/
def value? (c : Char) : Option Nat :=
  if '0' ≤ c ∧ c ≤ '9' then some (c.toNat - 48)
  else if 'a' ≤ c ∧ c ≤ 'f' then some (c.toNat - 87)
  else if 'A' ≤ c ∧ c ≤ 'F' then some (c.toNat - 55)
  else none

/-- Two lower-case digits for a byte. -/
def byte (b : UInt8) : List Char :=
  [digit (b.toNat / 16), digit (b.toNat % 16)]

/-- The bytes with two digits each. -/
def ofBytes (bytes : Bytes) : String :=
  String.ofList (bytes.flatMap byte)

theorem value?_digit {n : Nat} (h : n < 16) : value? (digit n) = some n := by
  have all : ∀ m : Fin 16, value? (digit m) = some m.val := by decide
  exact all ⟨n, h⟩

theorem value?_upperDigit {n : Nat} (h : n < 16) : value? (upperDigit n) = some n := by
  have all : ∀ m : Fin 16, value? (upperDigit m) = some m.val := by decide
  exact all ⟨n, h⟩

end InternetPrinting.Text.Hex
