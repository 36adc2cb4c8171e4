import InternetPrinting.Settings

/-!
# Deadlines that are asked for

A deadline is kept in sixty-four bits of milliseconds. A span of fewer milliseconds is
rounded down to whole ones, so a longer span never gives a shorter deadline, and settings
that were valid stay valid. Of a longer span the low bits are kept alone: the deadline is
too short by all the others, and if the low bits are all zero it is none at all, which
makes the settings invalid.
-/

namespace InternetPrinting

namespace Span

variable {t u : Span}

/-- The nanoseconds of a span. -/
def inNanoseconds (t : Span) : Nat :=
  t.seconds * 1000000000 + t.nanoseconds

/-- The nanoseconds of a millisecond. -/
def millisecond : Nat := 1000000

/-- A span that can be asked for as a deadline: seconds of sixty-four bits, less than
another second, and a millisecond at least. -/
structure Askable (t : Span) : Prop where
  seconds_lt : t.seconds < UInt64.size
  nanoseconds_lt : t.nanoseconds < 1000000000
  millisecond_le : millisecond ≤ t.inNanoseconds

/-- A span rounded down to whole milliseconds. -/
structure RoundsTo (t deadline : Span) : Prop where
  whole : deadline = ofMilliseconds deadline.milliseconds
  le : deadline.inNanoseconds ≤ t.inNanoseconds
  lt : t.inNanoseconds < deadline.inNanoseconds + millisecond

theorem milliseconds_eq_div (t : Span) : t.milliseconds = t.inNanoseconds / millisecond := by
  simp only [milliseconds, inNanoseconds, millisecond]
  omega

@[simp] theorem inNanoseconds_ofMilliseconds (n : Nat) :
    (ofMilliseconds n).inNanoseconds = n * millisecond := by
  simp only [ofMilliseconds, inNanoseconds, millisecond]
  omega

theorem milliseconds_mono (shorter : t.inNanoseconds ≤ u.inNanoseconds) :
    t.milliseconds ≤ u.milliseconds := by
  rw [milliseconds_eq_div, milliseconds_eq_div]
  exact Nat.div_le_div_right shorter

theorem Askable.milliseconds_pos (askable : t.Askable) : 0 < t.milliseconds := by
  rw [milliseconds_eq_div]
  exact Nat.div_pos askable.millisecond_le (by decide)

/-- Whole milliseconds are what a span rounds to if they are its own. -/
theorem roundsTo_ofMilliseconds_iff {n : Nat} :
    t.RoundsTo (ofMilliseconds n) ↔ n = t.milliseconds := by
  rw [milliseconds_eq_div]
  constructor
  · intro rounds
    have le := rounds.le
    have lt := rounds.lt
    rw [inNanoseconds_ofMilliseconds] at le lt
    exact (Nat.div_eq_of_lt_le le (by rwa [Nat.succ_mul])).symm
  · rintro rfl
    constructor
    · rw [milliseconds_ofMilliseconds]
    · rw [inNanoseconds_ofMilliseconds]
      exact Nat.div_mul_le_self _ _
    · rw [inNanoseconds_ofMilliseconds]
      exact Nat.lt_div_mul_add (by decide)

end Span

namespace Settings

variable (s : Settings) (t : Span)

/-- The number of deadlines that can be kept, counted in milliseconds from zero. -/
def deadlineCount : Nat := UInt64.size

/-- The longest deadline that can be kept. -/
def longestDeadline : Span :=
  .ofMilliseconds (deadlineCount - 1)

theorem askable_longestDeadline : longestDeadline.Askable := by
  constructor <;> decide

/-- Nothing is wrong with the settings, unless they allow no time. -/
def ValidOtherwise : Prop :=
  ∀ cause, s.invalid? = some cause → cause = .zeroTimeout

/-- No shorter span is given a longer deadline. -/
def NeverShorter : Prop :=
  ∀ u : Span, u.Askable → u.inNanoseconds ≤ t.inNanoseconds →
    (s.withTimeout u).timeout.inNanoseconds ≤ (s.withTimeout t).timeout.inNanoseconds

/-- The deadline that is kept is the one that was asked for. -/
structure Honours : Prop where
  rounded : t.RoundsTo (s.withTimeout t).timeout
  neverShorter : s.NeverShorter t
  valid : s.ValidOtherwise → (s.withTimeout t).validate = .ok ()

/-- Of the milliseconds of a span the low sixty-four bits become the deadline. -/
theorem timeout_withTimeout :
    (s.withTimeout t).timeout = .ofMilliseconds (t.milliseconds % deadlineCount) := by
  rw [timeout, withTimeout, UInt64.toNat_ofNat']
  rfl

theorem inNanoseconds_timeout_withTimeout :
    (s.withTimeout t).timeout.inNanoseconds =
      t.milliseconds % deadlineCount * Span.millisecond := by
  rw [timeout_withTimeout, Span.inNanoseconds_ofMilliseconds]

theorem roundsTo_timeout_iff :
    t.RoundsTo (s.withTimeout t).timeout ↔ t.milliseconds < deadlineCount := by
  rw [timeout_withTimeout, Span.roundsTo_ofMilliseconds_iff]
  constructor
  · intro kept
    rw [← kept]
    exact Nat.mod_lt _ (by decide)
  · exact Nat.mod_eq_of_lt

/-- A span that cannot be kept is longer than the longest deadline. It is given a shorter
one than that, unless all the bits that are kept of it are set. -/
theorem neverShorter_iff :
    s.NeverShorter t ↔
      t.milliseconds < deadlineCount ∨ t.milliseconds % deadlineCount = deadlineCount - 1 := by
  have kept (n : Nat) : n % deadlineCount < deadlineCount := Nat.mod_lt _ (by decide)
  constructor
  · intro never
    by_cases small : t.milliseconds < deadlineCount
    · exact .inl small
    · right
      have shorter : longestDeadline.inNanoseconds ≤ t.inNanoseconds := by
        rw [longestDeadline, Span.inNanoseconds_ofMilliseconds]
        apply Nat.mul_le_of_le_div
        rw [← Span.milliseconds_eq_div]
        omega
      have order := never longestDeadline askable_longestDeadline shorter
      rw [inNanoseconds_timeout_withTimeout, inNanoseconds_timeout_withTimeout, longestDeadline,
        Span.milliseconds_ofMilliseconds, Nat.mod_eq_of_lt (by decide)] at order
      have above := Nat.le_of_mul_le_mul_right order (by decide)
      have below := kept t.milliseconds
      omega
  · intro allowed u _ shorter
    rw [inNanoseconds_timeout_withTimeout, inNanoseconds_timeout_withTimeout]
    apply Nat.mul_le_mul_right
    rcases allowed with small | full
    · have order := Span.milliseconds_mono shorter
      rw [Nat.mod_eq_of_lt small, Nat.mod_eq_of_lt (Nat.lt_of_le_of_lt order small)]
      exact order
    · rw [full]
      exact Nat.le_pred_of_lt (kept _)

variable {s}

theorem validOtherwise_iff :
    s.ValidOtherwise ↔ (Text.trim s.host).isEmpty = false ∧ s.port ≠ 0 := by
  unfold ValidOtherwise invalid?
  constructor
  · intro otherwise
    by_cases host : (Text.trim s.host).isEmpty = true
    · cases otherwise .blankHost (if_pos host)
    · rw [if_neg host] at otherwise
      refine ⟨Bool.eq_false_iff.mpr host, ?_⟩
      intro port
      cases otherwise .zeroPort (if_pos port)
  · rintro ⟨host, port⟩ cause found
    rw [host, if_neg Bool.false_ne_true, if_neg port] at found
    split at found
    · exact (Option.some.inj found).symm
    · cases found

theorem ValidOtherwise.validate_eq (otherwise : s.ValidOtherwise) :
    s.validate =
      if s.timeoutMs = 0 then .error (.invalidSettings .zeroTimeout) else .ok () := by
  obtain ⟨host, port⟩ := validOtherwise_iff.mp otherwise
  by_cases time : s.timeoutMs = 0 <;> simp [validate, invalid?, host, port, time]

/-- Settings whose deadline alone is in question are refused if it comes out as zero. -/
theorem ValidOtherwise.validate_withTimeout (otherwise : s.ValidOtherwise) (t : Span) :
    (s.withTimeout t).validate =
      if deadlineCount ∣ t.milliseconds then .error (.invalidSettings .zeroTimeout)
      else .ok () := by
  -- A deadline changes neither the host nor the port.
  have still : (s.withTimeout t).ValidOtherwise := by
    rw [validOtherwise_iff] at otherwise ⊢
    exact otherwise
  have zero : (s.withTimeout t).timeoutMs = 0 ↔ deadlineCount ∣ t.milliseconds := by
    rw [Nat.dvd_iff_mod_eq_zero, ← UInt64.toNat_inj, withTimeout, UInt64.toNat_ofNat']
    rfl
  rw [still.validate_eq]
  simp only [zero]

variable (s) {t}

/-- The deadline is the span rounded down exactly if its milliseconds can be kept, and then
everything else holds of it too. Beyond that a shorter span can have a longer deadline,
unless all the bits that are kept are set, and settings are refused if none of them is. -/
theorem withTimeout_exact (askable : t.Askable) :
    (s.Honours t ↔ t.milliseconds < deadlineCount) ∧
      (t.RoundsTo (s.withTimeout t).timeout ↔ t.milliseconds < deadlineCount) ∧
      (s.NeverShorter t ↔
        t.milliseconds < deadlineCount ∨ t.milliseconds % deadlineCount = deadlineCount - 1) ∧
      (s.ValidOtherwise →
        (s.withTimeout t).validate =
          if deadlineCount ∣ t.milliseconds then .error (.invalidSettings .zeroTimeout)
          else .ok ()) := by
  refine ⟨?_, s.roundsTo_timeout_iff t, s.neverShorter_iff t,
    fun otherwise => otherwise.validate_withTimeout t⟩
  constructor
  · intro honoured
    exact (s.roundsTo_timeout_iff t).mp honoured.rounded
  · intro small
    constructor
    · exact (s.roundsTo_timeout_iff t).mpr small
    · exact (s.neverShorter_iff t).mpr (.inl small)
    · intro otherwise
      have kept : ¬deadlineCount ∣ t.milliseconds := fun divides =>
        Nat.not_le_of_lt small (Nat.le_of_dvd askable.milliseconds_pos divides)
      rw [otherwise.validate_withTimeout t, if_neg kept]

/-- The standard settings are valid, and a deadline of a minute and a little more is the
minute. -/
theorem withTimeout_exact_minute :
    (standard.withTimeout ⟨60, 999999⟩).validate = .ok () ∧
      Span.RoundsTo ⟨60, 999999⟩ (standard.withTimeout ⟨60, 999999⟩).timeout := by
  have askable : Span.Askable ⟨60, 999999⟩ := by constructor <;> decide
  have otherwise : standard.ValidOtherwise := by
    intro cause found
    have valid : standard.invalid? = none := by decide
    rw [valid] at found
    cases found
  obtain ⟨⟨-, honoured⟩, -⟩ := withTimeout_exact standard askable
  have small := honoured (by decide)
  exact ⟨small.valid otherwise, small.rounded⟩

/-- The first span whose milliseconds cannot be kept. -/
def firstTooLong : Span :=
  ⟨18446744073709551, 616000000⟩

/-- It gives no time at all, and settings that were valid are refused. -/
theorem not_honours_firstTooLong :
    firstTooLong.Askable ∧ standard.validate = .ok () ∧
      (standard.withTimeout firstTooLong).timeout = ⟨0, 0⟩ ∧
      (standard.withTimeout firstTooLong).validate = .error (.invalidSettings .zeroTimeout) ∧
      ¬ standard.Honours firstTooLong := by
  have askable : firstTooLong.Askable := by constructor <;> decide
  refine ⟨askable, rfl, rfl, rfl, ?_⟩
  intro honoured
  have small := (standard.roundsTo_timeout_iff firstTooLong).mp honoured.rounded
  exact absurd small (by decide)

end Settings

end InternetPrinting
