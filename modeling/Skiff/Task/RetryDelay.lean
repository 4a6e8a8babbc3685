import Skiff.Task.Scheduler

/-!
# The delay before a retry

`RetryBackoffPolicy::with_jitter` and `delay_millis` of `task-control/src/scheduler/backoff.rs`.
The delay doubles with each attempt up to the maximum, and a jitter below the span is added. The
exponent is clamped and the sum saturates, which shows where the base is one and the maximum is out
of reach of the clamp, or where the sum leaves the range of the type.
-/

namespace Skiff.Task

open RetryBackoffPolicy

/-- `RetryBackoffPolicy::with_jitter`; the jitter source is not looked at. -/
def RetryBackoffPolicy.withJitter (base max jitterSpan : DurableDuration) :
    Except String RetryBackoffPolicy :=
  if base ≤ 0 then .error "backoff base must be positive"
  else if max < base then .error "backoff max must be >= base"
  else if jitterSpan < 0 then .error "backoff jitter span must be non-negative"
  else .ok ⟨base, max, jitterSpan⟩

/-- What `Jitter::next_millis` promises for a span. -/
def HonoursSpan (span jitter : Int) : Prop := 0 ≤ jitter ∧ (0 < span → jitter < span) ∧
  (span ≤ 0 → jitter = 0)

/-- `min(base * 2^(generation - 1), max)` in unbounded integers. -/
def exponentialMillis (base limit : Int) (generation : Nat) : Int :=
  min (base * 2 ^ (max generation 1 - 1)) limit

/-- The delay of a generation with a jitter is what the policy says. -/
structure RetryBackoffPolicy.Follows (policy : RetryBackoffPolicy) (generation : Nat)
    (jitter : Int) : Prop where
  exact : policy.delayMillis generation jitter - jitter =
    exponentialMillis policy.base policy.max generation
  monotone : ∀ later, generation ≤ later →
    policy.delayMillis generation jitter - jitter ≤ policy.delayMillis later jitter - jitter
  nonneg : 0 ≤ policy.delayMillis generation jitter
  bounded : policy.delayMillis generation jitter ≤ policy.max + policy.jitterSpan

variable {policy : RetryBackoffPolicy} {base max jitterSpan : DurableDuration}

theorem withJitter_ok (h : withJitter base max jitterSpan = .ok policy) :
    0 < policy.base ∧ policy.base ≤ policy.max ∧ 0 ≤ policy.jitterSpan := by
  rw [withJitter] at h
  split at h
  · cases h
  case isFalse hbase =>
    split at h
    · cases h
    case isFalse hmax =>
      split at h
      · cases h
      case isFalse hspan =>
        cases h
        exact ⟨not_le.mp hbase, not_lt.mp hmax, not_lt.mp hspan⟩

/-! ## The capped delay -/

/-- The delay without its jitter. -/
def cappedMillis (base limit : Int) (generation : Nat) : Int :=
  min (saturate (base * 2 ^ min (generation - 1) 62)) limit

variable {base limit : Int} {generation later : Nat}

theorem i64Range : i64Min = -(2 ^ 63) ∧ i64Max = 2 ^ 63 - 1 := ⟨rfl, rfl⟩

theorem saturate_mono {a b : Int} (h : a ≤ b) : saturate a ≤ saturate b :=
  max_le_max_left _ (min_le_min_right _ h)

theorem capped_mono (hbase : 0 < base) (h : generation ≤ later) :
    cappedMillis base limit generation ≤ cappedMillis base limit later := by
  have hpow : (2 : Int) ^ min (generation - 1) 62 ≤ 2 ^ min (later - 1) 62 :=
    pow_le_pow_right₀ (by decide) (by omega)
  exact min_le_min_right _ (saturate_mono (mul_le_mul_of_nonneg_left hpow hbase.le))

theorem base_le_mul (hbase : 0 < base) (n : Nat) : base ≤ base * 2 ^ n :=
  le_mul_of_one_le_right hbase.le (one_le_pow₀ (by decide))

theorem capped_pos (hbase : 0 < base) (hlimit : base ≤ limit) :
    0 < cappedMillis base limit generation := by
  have hle := base_le_mul hbase (min (generation - 1) 62)
  obtain ⟨hmin, hmax⟩ := i64Range
  rw [cappedMillis, saturate]
  omega

/-- Up to the clamp of the exponent only the range of the type could matter, and the limit is
within it. -/
theorem capped_eq_of_le (hbase : 0 < base) (hi64 : limit ≤ i64Max) (h : generation ≤ 63) :
    cappedMillis base limit generation = exponentialMillis base limit generation := by
  have hexponent : min (generation - 1) 62 = max generation 1 - 1 := by omega
  have hle := base_le_mul hbase (max generation 1 - 1)
  obtain ⟨hmin, hmax⟩ := i64Range
  rw [cappedMillis, exponentialMillis, hexponent, saturate]
  omega

/-- Past it the clamped delay falls short where the base is one and the limit is farther. -/
theorem capped_of_gt (hbase : 0 < base) (hi64 : limit ≤ i64Max) (h : 63 < generation) :
    cappedMillis base limit generation ≤ exponentialMillis base limit generation ∧
      (cappedMillis base limit generation = exponentialMillis base limit generation ↔
        2 ≤ base ∨ limit ≤ 2 ^ 62) := by
  have hexponent : min (generation - 1) 62 = 62 := by omega
  have hpow : (2 : Int) ^ 63 ≤ 2 ^ (max generation 1 - 1) :=
    pow_le_pow_right₀ (by decide) (by omega)
  have hmul : (2 : Int) ^ (max generation 1 - 1) ≤ base * 2 ^ (max generation 1 - 1) :=
    le_mul_of_one_le_left (pow_nonneg (by decide) _) hbase
  obtain ⟨hmin, hmax⟩ := i64Range
  rw [cappedMillis, exponentialMillis, hexponent, saturate]
  generalize base * 2 ^ (max generation 1 - 1) = exact at *
  generalize (2 : Int) ^ (max generation 1 - 1) = power at *
  omega

theorem capped_iff (hbase : 0 < base) (hi64 : limit ≤ i64Max) :
    cappedMillis base limit generation ≤ exponentialMillis base limit generation ∧
      (cappedMillis base limit generation = exponentialMillis base limit generation ↔
        2 ≤ base ∨ generation ≤ 63 ∨ limit ≤ 2 ^ 62) := by
  obtain h | h := Nat.lt_or_ge 63 generation
  · obtain ⟨hle, hiff⟩ := capped_of_gt hbase hi64 h
    rw [hiff, or_iff_right (a := generation ≤ 63) (by omega)]
    exact ⟨hle, .rfl⟩
  have heq := capped_eq_of_le hbase hi64 h
  exact ⟨heq.le, iff_of_true heq (.inr (.inl h))⟩

/-! ## The delay -/

theorem delayMillis_eq {jitter : Int} :
    policy.delayMillis generation jitter =
      saturate (cappedMillis policy.base policy.max generation + jitter) := rfl

/-- The delay is what the policy says exactly if the clamp of the exponent does not matter and the
sum with the jitter is in range. -/
theorem delayMillis_follows_iff {policy : RetryBackoffPolicy} {jitter : Int}
    {base max jitterSpan : DurableDuration} (h : withJitter base max jitterSpan = .ok policy)
    (hi64 : policy.max ≤ i64Max) (hjitter : HonoursSpan policy.jitterSpan jitter) :
    policy.Follows generation jitter ↔
      (2 ≤ policy.base ∨ generation ≤ 63 ∨ policy.max ≤ 2 ^ 62) ∧
        exponentialMillis policy.base policy.max generation + jitter ≤ i64Max := by
  obtain ⟨hbase, hmax, hspan⟩ := withJitter_ok h
  obtain ⟨hnonneg, hbelow, hzero⟩ := hjitter
  have hpos : 0 < cappedMillis policy.base policy.max generation := capped_pos hbase hmax
  have hlimit : cappedMillis policy.base policy.max generation ≤ policy.max := min_le_right _ _
  obtain ⟨hle, hexact⟩ := @capped_iff _ _ generation hbase hi64
  have hsum := add_nonneg hpos.le hnonneg
  have hdelay : policy.delayMillis generation jitter =
      min (cappedMillis policy.base policy.max generation + jitter) i64Max := by
    rw [delayMillis_eq, saturate]
    exact max_eq_right (le_min ((show i64Min ≤ 0 by decide).trans hsum) (by decide))
  rw [← hexact]
  constructor
  · intro hfollows
    have heq := hfollows.exact
    rw [hdelay] at heq
    omega
  rintro ⟨heq, hrange⟩
  rw [heq, min_eq_left hrange] at hdelay
  refine ⟨by rw [hdelay, add_sub_cancel_right], fun later hlater => ?_, ?_, ?_⟩
  · exact sub_le_sub_right (saturate_mono (add_le_add_left (capped_mono hbase hlater) _)) _
  · rw [hdelay, ← heq]
    exact hsum
  rw [hdelay, ← heq]
  have hjitter : jitter ≤ policy.jitterSpan := by
    obtain hlt | hle := lt_or_ge (0 : Int) policy.jitterSpan
    · exact (hbelow hlt).le
    · exact (hzero hle).trans_le hspan
  exact add_le_add hlimit hjitter

/-- The third attempt with the default policy. -/
theorem delayMillis_follows_default : Follows ⟨100, 30000, 100⟩ 3 99 :=
  (delayMillis_follows_iff (rfl : withJitter 100 30000 100 = .ok ⟨100, 30000, 100⟩)
    (by decide) ⟨by decide, fun _ => by decide, fun hle => absurd hle (by decide)⟩).mpr
    ⟨.inl (by decide), by decide⟩

/-- With base one the clamp keeps the delay at `2^62` milliseconds, short of the maximum. -/
theorem clamp_short_of_max : withJitter 1 i64Max 0 = .ok ⟨1, i64Max, 0⟩ ∧ HonoursSpan 0 0 ∧
    ¬ Follows ⟨1, i64Max, 0⟩ 64 0 := by
  refine ⟨rfl, ⟨by decide, fun hlt => absurd hlt (by decide), fun _ => rfl⟩, fun h => ?_⟩
  exact absurd h.exact (by decide)

end Skiff.Task
