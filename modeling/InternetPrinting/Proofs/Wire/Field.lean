import InternetPrinting.Response.Wire
import Mathlib.Algebra.Group.Nat.Defs
import Mathlib.Data.List.Induction

/-!
# Reading fields back

A cursor yields the content of a field exactly where a field was written, and
then stands behind it. Numbers of a fixed width are spelled by exactly one
byte string of that width, so the two length bytes of a field leave no choice.
-/

namespace InternetPrinting

namespace Bytes

/-- Writing keeps as much of a number as fits into the width. -/
theorem ofBigEndian_bigEndian_mod (width n : Nat) :
    ofBigEndian (bigEndian width n) = n % 256 ^ width := by
  induction width generalizing n with
  | zero => simp [bigEndian, ofBigEndian, Nat.mod_one]
  | succ width ih =>
      have last : (UInt8.ofNat n).toNat = n % 256 := by simp
      rw [bigEndian, ofBigEndian_concat, ih, last, Nat.pow_succ', Nat.mod_mul]
      exact (Nat.add_comm _ _).trans (congrArg _ (Nat.mul_comm _ _))

/-- A number that fits into the width is read back. -/
theorem ofBigEndian_bigEndian {width n : Nat} (h : n < 256 ^ width) :
    ofBigEndian (bigEndian width n) = n := by
  rw [ofBigEndian_bigEndian_mod, Nat.mod_eq_of_lt h]

/-- A field is read back whatever follows it. -/
theorem field?_field_append (content rest : Bytes) (h : content.length < 65536) :
    field? (field content ++ rest) = some (content, rest) := by
  have front : (field content ++ rest).take 2 = bigEndian 2 content.length := by
    rw [field, List.append_assoc, List.take_append_of_le_length (by simp)]
    exact List.take_of_length_le (by simp)
  have back : (field content ++ rest).drop 2 = content ++ rest := by
    rw [field, List.append_assoc, List.drop_append_of_le_length (by simp)]
    rw [List.drop_of_length_le (by simp)]; simp
  have value : ofBigEndian (bigEndian 2 content.length) = content.length :=
    ofBigEndian_bigEndian (by omega)
  simp [field?, front, back, value]

theorem ofBigEndian_lt (bytes : Bytes) : ofBigEndian bytes < 256 ^ bytes.length := by
  induction bytes using List.reverseRecOn with
  | nil => simp [ofBigEndian]
  | append_singleton bytes b ih =>
      have digit := b.toNat_lt
      rw [ofBigEndian_concat, List.length_append, List.length_singleton, Nat.pow_succ]
      omega

/-- The bytes of a width are those that spell the number they stand for. -/
theorem bigEndian_ofBigEndian (bytes : Bytes) :
    bigEndian bytes.length (ofBigEndian bytes) = bytes := by
  induction bytes using List.reverseRecOn with
  | nil => rfl
  | append_singleton bytes b ih =>
      have digit := b.toNat_lt
      have high : (ofBigEndian bytes * 256 + b.toNat) / 256 = ofBigEndian bytes := by omega
      have low : UInt8.ofNat (ofBigEndian bytes * 256 + b.toNat) = b := by
        apply UInt8.toNat_inj.mp
        simp
      rw [ofBigEndian_concat, List.length_append, List.length_singleton, bigEndian, high, low, ih]

@[simp] theorem length_field (content : Bytes) : (field content).length = 2 + content.length := by
  rw [field, List.length_append, length_bigEndian]

/-- Bytes that begin with a field: two bytes that tell the length of a content, the
content, and the rest behind it. -/
def Prefixed (bytes content rest : Bytes) : Prop :=
  ∃ high low : UInt8, bytes = high :: low :: (content ++ rest) ∧
    content.length = high.toNat * 256 + low.toNat

/-- A field takes the bytes at the front, whatever follows them. -/
theorem Prefixed.exists_front {bytes content rest : Bytes} (h : bytes.Prefixed content rest) :
    ∃ front, bytes = front ++ rest ∧ ∀ more, (front ++ more).Prefixed content more := by
  obtain ⟨high, low, rfl, long⟩ := h
  exact ⟨high :: low :: content, rfl, fun more => ⟨high, low, rfl, long⟩⟩

/-- A field is found exactly where the bytes begin with one. -/
theorem field?_eq_some_iff {bytes content rest : Bytes} :
    field? bytes = some (content, rest) ↔ bytes.Prefixed content rest := by
  rcases bytes with _ | ⟨high, _ | ⟨low, tail⟩⟩
  · simp [field?, Prefixed]
  · simp [field?, Prefixed]
  · have need : ofBigEndian [high, low] = high.toNat * 256 + low.toNat := by simp [ofBigEndian]
    simp only [field?, List.take_succ_cons, List.take_zero, List.drop_succ_cons, List.drop_zero,
      List.length_cons, List.length_nil, Nat.zero_add, Nat.reduceAdd, if_true, need]
    constructor
    · intro found
      split at found
      · next enough =>
        cases found
        exact ⟨high, low, by rw [List.take_append_drop], enough⟩
      · cases found
    · rintro ⟨_, _, spelled, long⟩
      cases spelled
      simp [← long]

/-- What is written as a field begins with one. -/
theorem prefixed_field_append {content : Bytes} (short : content.length < 65536) (rest : Bytes) :
    (field content ++ rest).Prefixed content rest := by
  apply field?_eq_some_iff.mp
  exact field?_field_append content rest short

theorem field?_eq_none_iff {bytes : Bytes} :
    field? bytes = none ↔ ∀ content rest, ¬ bytes.Prefixed content rest := by
  simp only [← field?_eq_some_iff, Option.eq_none_iff_forall_ne_some, Prod.forall, ne_eq]

theorem Prefixed.length_eq {bytes content rest : Bytes} (h : bytes.Prefixed content rest) :
    bytes.length = 2 + content.length + rest.length := by
  obtain ⟨high, low, rfl, -⟩ := h
  simp only [List.length_cons, List.length_append]
  omega

theorem Prefixed.unique {bytes content rest content' rest' : Bytes}
    (h : bytes.Prefixed content rest) (h' : bytes.Prefixed content' rest') :
    content = content' ∧ rest = rest' := by
  have found := field?_eq_some_iff.mpr h
  rw [field?_eq_some_iff.mpr h'] at found
  cases found
  exact ⟨rfl, rfl⟩

end Bytes

namespace Cursor

/-- Taking bytes succeeds where there are enough, and moves behind them. -/
theorem take_eq_ok_iff {part : Part} {n : Nat} {c next : Cursor} {bytes : Bytes} :
    c.take part n = .ok (bytes, next) ↔
      bytes.length = n ∧ c.rest = bytes ++ next.rest ∧ next.offset = c.offset + n := by
  constructor
  · intro taken
    unfold take at taken
    split at taken
    · next enough =>
      cases taken
      exact ⟨enough, (List.take_append_drop n c.rest).symm, rfl⟩
    · cases taken
  · rintro ⟨rfl, spelled, moved⟩
    obtain ⟨rest, offset⟩ := next
    simp only at spelled moved
    simp [take, spelled, moved]

/-- Reading a field succeeds where one was written, and moves behind it. -/
theorem field_eq_ok_iff {part : Part} {c next : Cursor} {content : Bytes} :
    c.field part = .ok (content, next) ↔
      content.length < 65536 ∧ c.rest = Bytes.field content ++ next.rest ∧
        next.offset = c.offset + (Bytes.field content).length := by
  constructor
  · intro read
    unfold field at read
    split at read
    · cases read
    · next width behind hit =>
      obtain ⟨two, front, moved⟩ := take_eq_ok_iff.mp hit
      obtain ⟨long, back, moved'⟩ := take_eq_ok_iff.mp read
      have bound := Bytes.ofBigEndian_lt width
      rw [two] at bound
      have prefixed : Bytes.bigEndian 2 content.length = width := by
        rw [long, ← two, Bytes.bigEndian_ofBigEndian]
      refine ⟨by omega, ?_, ?_⟩
      · rw [front, back, Bytes.field, prefixed, List.append_assoc]
      · rw [moved', moved, Bytes.length_field, long, Nat.add_assoc]
  · rintro ⟨short, spelled, moved⟩
    have width : c.take part 2 = .ok (Bytes.bigEndian 2 content.length,
        ⟨content ++ next.rest, c.offset + 2⟩) :=
      take_eq_ok_iff.mpr ⟨by simp, by simp [spelled, Bytes.field], rfl⟩
    have length : Bytes.ofBigEndian (Bytes.bigEndian 2 content.length) = content.length :=
      Bytes.ofBigEndian_bigEndian (by omega)
    unfold field
    rw [width]
    refine take_eq_ok_iff.mpr ⟨length.symm, rfl, ?_⟩
    rw [moved, length, Bytes.length_field, Nat.add_assoc]

end Cursor

end InternetPrinting
