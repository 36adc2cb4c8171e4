import InternetPrinting.Text.Base64
import Mathlib.Data.Nat.Digits.Lemmas
import Mathlib.Tactic.Ring

/-!
# Base64 read back

The digits of a text are the bytes it stands for, read as one number and written with six
bits to a digit: as many zero bits as the last digit lacks are put behind the bytes, and
two equals signs are padded for four of them, one for two. That determines the text.
Reading it back gives the bytes.
-/

namespace InternetPrinting.Text.Base64

open Nat (ofDigits)

/-- The digits and the number of equals signs that a byte string is written with. -/
structure Spells (bytes : Bytes) (digits : List Nat) (padding : Nat) : Prop where
  small : ∀ d ∈ digits, d < 64
  short : padding < 3
  bits : 6 * digits.length = 8 * bytes.length + 2 * padding
  number : ofDigits 64 digits.reverse =
    ofDigits 256 (bytes.map UInt8.toNat).reverse * 4 ^ padding

/-- A byte string is written in one way only. -/
theorem Spells.unique {bytes : Bytes} {digits digits' : List Nat} {padding padding' : Nat}
    (here : Spells bytes digits padding) (there : Spells bytes digits' padding') :
    digits = digits' ∧ padding = padding' := by
  have bits := here.bits
  have bits' := there.bits
  have short := here.short
  have short' := there.short
  obtain rfl : padding = padding' := by omega
  have length : digits.reverse.length = digits'.reverse.length := by
    rw [List.length_reverse, List.length_reverse]
    omega
  have same : digits.reverse = digits'.reverse := by
    apply Nat.ofDigits_inj_of_len_eq (by decide : 1 < 64) length
    · intro d member
      exact here.small d (List.mem_reverse.mp member)
    · intro d member
      exact there.small d (List.mem_reverse.mp member)
    · exact here.number.trans there.number.symm
  exact ⟨List.reverse_injective same, rfl⟩

theorem spells_nil : Spells [] [] 0 := by
  constructor <;> simp

theorem spells_one (a : UInt8) : Spells [a] [a.toNat * 16 / 64, a.toNat * 16 % 64] 2 := by
  have small := a.toNat_lt
  constructor
  · simp only [List.forall_mem_cons, List.not_mem_nil, false_implies, implies_true, and_true]
    omega
  · decide
  · rfl
  · simp [Nat.ofDigits_cons]
    omega

theorem spells_two (a b : UInt8) :
    let n := (a.toNat * 256 + b.toNat) * 4
    Spells [a, b] [n / 4096, n / 64 % 64, n % 64] 1 := by
  have small := a.toNat_lt
  have small' := b.toNat_lt
  constructor
  · simp only [List.forall_mem_cons, List.not_mem_nil, false_implies, implies_true, and_true]
    omega
  · decide
  · rfl
  · simp [Nat.ofDigits_cons]
    omega

/-- Three bytes and four digits in front are the same number, and what is behind them is
as long in bits. -/
theorem Spells.cons {rest : Bytes} {digits : List Nat} {padding : Nat}
    (behind : Spells rest digits padding) (a b c : UInt8) :
    let n := (a.toNat * 256 + b.toNat) * 256 + c.toNat
    Spells (a :: b :: c :: rest) (n / 262144 :: n / 4096 % 64 :: n / 64 % 64 :: n % 64 :: digits)
      padding := by
  intro n
  have large : n < 16777216 := by
    have := a.toNat_lt
    have := b.toNat_lt
    have := c.toNat_lt
    omega
  have split : n / 262144 * 262144 + n / 4096 % 64 * 4096 + n / 64 % 64 * 64 + n % 64 = n := by
    omega
  have weight : 64 ^ digits.length = 256 ^ rest.length * 4 ^ padding := by
    calc
      64 ^ digits.length = 2 ^ (6 * digits.length) := by rw [Nat.pow_mul]
      _ = 2 ^ (8 * rest.length + 2 * padding) := by rw [behind.bits]
      _ = 256 ^ rest.length * 4 ^ padding := by rw [Nat.pow_add, Nat.pow_mul, Nat.pow_mul]
  constructor
  · simp only [List.forall_mem_cons]
    exact ⟨by omega, by omega, by omega, by omega, behind.small⟩
  · exact behind.short
  · have bits := behind.bits
    simp only [List.length_cons]
    omega
  · simp only [List.map_cons, Nat.ofDigits_reverse_cons, List.length_cons, List.length_map,
      behind.number]
    generalize ofDigits 256 (rest.map UInt8.toNat).reverse = tail
    calc
      tail * 4 ^ padding + 64 ^ digits.length * (n % 64) +
              64 ^ (digits.length + 1) * (n / 64 % 64) +
            64 ^ (digits.length + 1 + 1) * (n / 4096 % 64) +
          64 ^ (digits.length + 1 + 1 + 1) * (n / 262144)
          = tail * 4 ^ padding + 64 ^ digits.length *
              (n / 262144 * 262144 + n / 4096 % 64 * 4096 + n / 64 % 64 * 64 + n % 64) := by ring
      _ = tail * 4 ^ padding + 256 ^ rest.length * 4 ^ padding * n := by rw [split, weight]
      _ = _ := by simp only [n]; ring

/-- The characters for digits and padding. -/
def spelling (digits : List Nat) (padding : Nat) : List Char :=
  digits.map digit ++ List.replicate padding '='

/-- What is written for a byte string spells it. -/
theorem exists_spells_encode (bytes : Bytes) :
    ∃ digits padding, Spells bytes digits padding ∧ encode bytes = spelling digits padding := by
  fun_induction encode bytes with
  | case1 => exact ⟨[], 0, spells_nil, rfl⟩
  | case2 a n => exact ⟨_, _, spells_one a, rfl⟩
  | case3 a b n => exact ⟨_, _, spells_two a b, rfl⟩
  | case4 a b c rest n ih =>
      obtain ⟨digits, padding, spells, written⟩ := ih
      refine ⟨_, _, spells.cons a b c, ?_⟩
      rw [written]
      rfl

/-- Every character that is written is a digit or padding. -/
theorem of_mem_encode {bytes : Bytes} {c : Char} (member : c ∈ encode bytes) :
    (∃ n < 64, c = digit n) ∨ c = '=' := by
  obtain ⟨digits, padding, spells, written⟩ := exists_spells_encode bytes
  rw [written, spelling, List.mem_append] at member
  rcases member with own | pad
  · obtain ⟨n, among, rfl⟩ := List.mem_map.mp own
    exact .inl ⟨n, spells.small n among, rfl⟩
  · exact .inr (List.eq_of_mem_replicate pad)

/-- Digits are the visible characters of ASCII that the standard lists, and so is padding. -/
theorem visible_of_mem_encode {bytes : Bytes} {c : Char} (member : c ∈ encode bytes) :
    0x21 ≤ c.toNat ∧ c.toNat ≤ 0x7E := by
  rcases of_mem_encode member with ⟨n, small, rfl⟩ | rfl
  · have all : ∀ m : Fin 64, 0x21 ≤ (digit m).toNat ∧ (digit m).toNat ≤ 0x7E := by decide
    exact all ⟨n, small⟩
  · decide

theorem digit_ne_padding {n : Nat} (small : n < 64) : digit n ≠ '=' := by
  have all : ∀ m : Fin 64, digit m ≠ '=' := by decide
  exact all ⟨n, small⟩

/-- Four digits are read as three bytes, if the last of them is no padding. -/
theorem decode?_digits {p q r s : Nat} (hp : p < 64) (hq : q < 64) (hr : r < 64) (hs : s < 64)
    (rest : List Char) :
    decode? (digit p :: digit q :: digit r :: digit s :: rest) =
      (decode? rest).map fun bytes =>
        let n := ((p * 64 + q) * 64 + r) * 64 + s
        UInt8.ofNat (n / 65536) :: UInt8.ofNat (n / 256) :: UInt8.ofNat n :: bytes := by
  have full : digit s ≠ '=' := digit_ne_padding hs
  rw [decode?]
  · simp only [value?_digit, hp, hq, hr, hs]
    cases decode? rest <;> rfl
  all_goals
    intros
    simp_all

/-- A number stands for the byte that its low eight bits make. -/
theorem ofNat_eq_of_mod {n : Nat} {b : UInt8} (low : n % 256 = b.toNat) : UInt8.ofNat n = b := by
  rw [← UInt8.toNat_inj, UInt8.toNat_ofNat']
  exact low

/-- Reading back what is written gives the bytes. -/
theorem decode?_encode (bytes : Bytes) : decode? (encode bytes) = some bytes := by
  fun_induction encode bytes with
  | case1 => rfl
  | case2 a n =>
      have small := a.toNat_lt
      have first : UInt8.ofNat ((n / 64 * 64 + n % 64) / 16) = a := ofNat_eq_of_mod (by omega)
      simp only [decode?, value?_digit (show n / 64 < 64 by omega),
        value?_digit (show n % 64 < 64 by omega), Option.bind_eq_bind, Option.bind_some, first]
      rfl
  | case3 a b n =>
      have small := a.toNat_lt
      have small' := b.toNat_lt
      have whole : (n / 4096 * 64 + n / 64 % 64) * 64 + n % 64 = n := by omega
      have first : UInt8.ofNat (n / 1024) = a := ofNat_eq_of_mod (by omega)
      have second : UInt8.ofNat (n / 4) = b := ofNat_eq_of_mod (by omega)
      rw [decode?]
      · simp only [value?_digit (show n / 4096 < 64 by omega),
          value?_digit (show n / 64 % 64 < 64 by omega),
          value?_digit (show n % 64 < 64 by omega), Option.bind_eq_bind, Option.bind_some, whole,
          first, second]
        rfl
      · exact digit_ne_padding (by omega)
  | case4 a b c rest n ih =>
      have small := a.toNat_lt
      have small' := b.toNat_lt
      have small'' := c.toNat_lt
      have whole : ((n / 262144 * 64 + n / 4096 % 64) * 64 + n / 64 % 64) * 64 + n % 64 = n := by
        omega
      have first : UInt8.ofNat (n / 65536) = a := ofNat_eq_of_mod (by omega)
      have second : UInt8.ofNat (n / 256) = b := ofNat_eq_of_mod (by omega)
      have third : UInt8.ofNat n = c := ofNat_eq_of_mod (by omega)
      rw [decode?_digits (by omega) (by omega) (by omega) (by omega), ih]
      simp only [whole, first, second, third]
      rfl

/-- The digits in their order, as the standard lists them. -/
example : (List.range 64).map digit =
    "ABCDEFGHIJKLMNOPQRSTUVWXYZabcdefghijklmnopqrstuvwxyz0123456789+/".toList := by
  decide

end InternetPrinting.Text.Base64
