import Mathlib
import Formula.Scan
import Formula.Proofs.Intervals

/-!
# How long scans are

A scan has one sample more than segments fit into its interval.  Their number is a quotient of
floating-point numbers, rounded down, and becomes a word of 64 bits.  What `Scan.start` checks is
enough for this to go well, whatever the interval and the step: the word is the number of segments,
or zero if that is negative, and it is not the last word.

* `Number.value_floor`: rounding down is exact.
* `Scan.Countable`: the segments can be counted.
* `Scan.start_cases`: the three outcomes of starting a scan.
* **`Scan.start_length`**: a scan has at least one sample and at most `Scan.maxSamples`.
-/

namespace Formula

/-! ### Rounding down -/

namespace Number

open Float.Model (UnpackedFloat)

variable {v : Float}

/-- What is not finite is not rounded. -/
theorem floor_of_not_isFinite (h : v.isFinite = false) : floor v = v := by
  have h : v.toModel.unpack.isFinite = false := h
  unfold floor
  split
  · rename_i hv
    rw [hv] at h
    cases h
  · rfl

/-- **Rounding down is exact.** -/
theorem value_floor (h : v.isFinite = true) :
    (floor v).isFinite = true ∧ value (floor v) = ⌊value v⌋ := by
  obtain ⟨s, hv⟩ | ⟨s, m, q, hm, hv, hmq⟩ := finite_cases h
  · have hfloor : floor v = v := by rw [floor, hv]
    rw [hfloor, value_of_zero hv, Int.floor_zero, Int.cast_zero]
    exact ⟨h, rfl⟩
  · by_cases hq : 0 ≤ q
    · have hfloor : floor v = v := by
        rw [floor, hv]
        exact if_pos hq
      obtain ⟨k, rfl⟩ := Int.eq_ofNat_of_zero_le hq
      have hwhole : value v = ((s.apply m * 2 ^ k : Int) : ℚ) := by
        rw [value_of_finite hv, zpow_natCast]
        push_cast
        rfl
      rw [hfloor, hwhole, Int.floor_intCast]
      exact ⟨h, rfl⟩
    · -- the quotient has at most as many bits as the mantissa, so that it is exact
      have hfloor : floor v = .ofModel (.ofInt (s.apply m / (2 ^ (-q).toNat : Nat))) := by
        rw [floor, hv]
        exact if_neg hq
      obtain ⟨k, hk, rfl⟩ : ∃ k : Nat, (-q).toNat = k ∧ q = -k := ⟨(-q).toNat, rfl, by omega⟩
      have hvalue : value v = ((s.apply m : Int) : ℚ) / ((2 ^ k : Nat) : ℚ) := by
        rw [value_of_finite hv, zpow_neg, zpow_natCast, div_eq_mul_inv]
        push_cast
        rfl
      have hsize : (s.apply m / (2 ^ k : Nat) : Int).natAbs < 2 ^ 53 := by
        refine (Int.natAbs_ediv_le_natAbs _ _).trans_lt ?_
        have happly : (s.apply m).natAbs = m := by cases s <;> simp [UnpackedFloat.Sign.apply]
        rw [happly]
        exact hmq.lt
      rw [hfloor, hk, hvalue, Rat.floor_intCast_div_natCast]
      exact value_ofInt hsize

theorem isFinite_floor : (floor v).isFinite = v.isFinite := by
  cases h : v.isFinite with
  | false => rw [floor_of_not_isFinite h, h]
  | true => exact (value_floor h).1

end Number

namespace Scan

variable {curve : Curve} {i : Interval} {step : Float} {n : UInt64}

/-! ### Counting segments -/

theorem value_maxSamples :
    maxSamples.toUInt64.toFloat.isFinite = true ∧
      Number.value maxSamples.toUInt64.toFloat = maxSamples :=
  Number.value_toFloat (by decide)

/-- The segments between the samples can be counted, and are not too many. -/
def Countable (i : Interval) (step : Float) : Prop :=
  (stepCount i step).isFinite = true ∧ ⌊Number.value (stepCount i step)⌋ < maxSamples

/-- The number of segments is looked at when it has been rounded down. -/
theorem countable_iff :
    Countable i step ↔ (Number.floor (stepCount i step)).isFinite = true ∧
      ¬maxSamples.toUInt64.toFloat ≤ Number.floor (stepCount i step) := by
  rw [Countable, Number.isFinite_floor]
  refine and_congr_right fun h => ?_
  obtain ⟨hfinite, hvalue⟩ := Number.value_floor h
  rw [Number.le_iff value_maxSamples.1 hfinite, hvalue, value_maxSamples.2, not_le]
  norm_cast

/-- The check of the number of segments. -/
theorem check_segments :
    (!(Number.floor (stepCount i step)).isFinite ||
      Number.floor (stepCount i step) ≥ maxSamples.toUInt64.toFloat) = true ↔
      ¬Countable i step := by
  rw [countable_iff, Bool.or_eq_true, Bool.not_eq_true', decide_eq_true_eq, not_and_or, not_not,
    Bool.not_eq_true]

/-- **The word for the number of segments is exact**, but a negative number becomes zero. -/
theorem Countable.toNat_toUInt64 (h : Countable i step) :
    (Number.floor (stepCount i step)).toUInt64.toNat =
      ⌊Number.value (stepCount i step)⌋.toNat := by
  obtain ⟨hfinite, hvalue⟩ := Number.value_floor h.1
  have hlt : (⌊Number.value (stepCount i step)⌋ : ℚ) < maxSamples := by exact_mod_cast h.2
  rw [Number.toNat_toUInt64 hfinite, hvalue, Int.floor_intCast]
  rw [hvalue]
  exact hlt.trans (by norm_num [maxSamples])

/-- There is a word after each but the last. -/
theorem successor?_eq (h : n.toNat + 1 < UInt64.size) :
    ∃ m, successor? n = some m ∧ m.toNat = n.toNat + 1 := by
  have hnat : (n + 1).toNat = n.toNat + 1 := by
    rw [UInt64.toNat_add, UInt64.toNat_one, Nat.mod_eq_of_lt h]
  have hne : n + 1 ≠ 0 := by
    intro hzero
    rw [hzero] at hnat
    exact absurd hnat (by simp)
  exact ⟨n + 1, if_neg hne, hnat⟩

/-- The number of samples is a word. -/
theorem Countable.exists_successor? (h : Countable i step) :
    ∃ m, successor? (Number.floor (stepCount i step)).toUInt64 = some m ∧
      m.toNat = (Number.floor (stepCount i step)).toUInt64.toNat + 1 := by
  refine successor?_eq ?_
  have hlt := h.2
  have hmax : (maxSamples : Int) + 1 < UInt64.size := by decide
  rw [h.toNat_toUInt64]
  omega

/-! ### Starting a scan -/

/-- There is no scan with this step. -/
def BadStep (step : Float) : Prop := step.isNaN = true ∨ step.isInf = true ∨ step ≤ 0.0

/-- The check of the step. -/
theorem check_step : (!step.isFinite || step ≤ 0.0) = true ↔ BadStep step := by
  rw [BadStep, Bool.or_eq_true, Bool.not_eq_true', Number.isFinite_eq_false_iff, decide_eq_true_eq,
    or_assoc]

/-- **The outcomes of starting a scan**: the step is bad, there are too many samples, or there is a
scan. -/
theorem start_cases (curve : Curve) (i : Interval) (step : Float) :
    (BadStep step ∧ start curve i step = .error (.badStep step)) ∨
    (¬BadStep step ∧ ¬Countable i step ∧
      start curve i step = .error (.tooManySamples i.width step)) ∨
    (¬BadStep step ∧ Countable i step ∧ ∃ s, start curve i step = .ok s ∧
      s.length = ⌊Number.value (stepCount i step)⌋.toNat + 1) := by
  unfold start
  by_cases hstep : BadStep step
  · exact .inl ⟨hstep, if_pos (check_step.2 hstep)⟩
  · rw [if_neg (mt check_step.1 hstep)]
    by_cases hcount : Countable i step
    · obtain ⟨m, hm, hnat⟩ := hcount.exists_successor?
      simp only [if_neg (not_not.2 hcount ∘ check_segments.1), hm]
      exact .inr (.inr ⟨hstep, hcount, _, rfl, by rw [← hcount.toNat_toUInt64, ← hnat]⟩)
    · exact .inr (.inl ⟨hstep, hcount, if_pos (check_segments.2 hcount)⟩)

theorem start_eq_badStep_iff : start curve i step = .error (.badStep step) ↔ BadStep step := by
  obtain ⟨hstep, hstart⟩ | ⟨hstep, -, hstart⟩ | ⟨hstep, -, s, hstart, -⟩ :=
    start_cases curve i step <;> simp [hstart, hstep]

theorem start_eq_tooManySamples_iff :
    start curve i step = .error (.tooManySamples i.width step) ↔
      ¬BadStep step ∧ ¬Countable i step := by
  obtain ⟨hstep, hstart⟩ | ⟨hstep, hcount, hstart⟩ | ⟨hstep, hcount, s, hstart, -⟩ :=
    start_cases curve i step
  · simp [hstart, hstep]
  · simp [hstart, hstep, hcount]
  · simp [hstart, hcount]

/-- The segments of an interval with finite bounds are counted by a number that is not NaN. -/
theorem isNaN_stepCount (hlow : i.low.isFinite = true) (hhigh : i.high.isFinite = true)
    (hstep : ¬BadStep step) : (stepCount i step).isNaN = false := by
  have hfinite : step.isFinite = true := by
    rw [← Bool.not_eq_false, Number.isFinite_eq_false_iff]
    exact fun h => hstep (h.imp_right .inl)
  have hne : Number.value step ≠ 0 := by
    intro hzero
    refine hstep (.inr (.inr ?_))
    rw [Number.le_iff hfinite (by decide), hzero, Number.value_of_zero (s := .positive) rfl]
  exact Number.isNaN_add (Number.isNaN_div (Number.isNaN_sub hhigh hlow) hfinite hne) (by decide)

/-- Segments that cannot be counted are too many before their number is rounded down. -/
theorem of_not_countable (h : ¬Countable i step) (hnan : (stepCount i step).isNaN = false) :
    (stepCount i step).isInf = true ∨ maxSamples.toUInt64.toFloat ≤ stepCount i step := by
  cases hfinite : (stepCount i step).isFinite with
  | false =>
    refine .inl ((Number.isFinite_eq_false_iff.1 hfinite).resolve_left ?_)
    rw [hnan]
    exact Bool.false_ne_true
  | true =>
    have hle : (maxSamples : Int) ≤ ⌊Number.value (stepCount i step)⌋ :=
      not_lt.1 fun hlt => h ⟨hfinite, hlt⟩
    refine .inr ((Number.le_iff value_maxSamples.1 hfinite).2 ?_)
    rw [value_maxSamples.2]
    exact_mod_cast Int.le_floor.1 hle

/-- **How long scans are.**  Whatever the interval and the step, the step is bad, there are too many
samples, or there is a scan with at least one sample and at most `maxSamples`: one more than there
are segments, rounded down and not below zero.  A number of segments that passes the check becomes a
word as it is, or zero if it is negative, and there is a word for the number of samples.  If the
bounds of the interval have been checked, samples are too many only if the number of segments is
infinite or at least `maxSamples`, also before it is rounded down. -/
theorem start_length (curve : Curve) (i : Interval) (step : Float) :
    let count := stepCount i step
    let segments := Number.floor count
    let limit := maxSamples.toUInt64.toFloat
    (start curve i step = .error (.badStep step) ↔
      step.isNaN = true ∨ step.isInf = true ∨ step ≤ 0.0) ∧
    (start curve i step = .error (.badStep step) ∨
      start curve i step = .error (.tooManySamples i.width step) ∨
      ∃ s, start curve i step = .ok s ∧ 1 ≤ s.length ∧ s.length ≤ maxSamples ∧
        s.length = ⌊Number.value count⌋.toNat + 1) ∧
    (segments.isFinite = true → ¬limit ≤ segments →
      (segments.toUInt64.toNat : ℚ) = max 0 (Number.value segments) ∧
      ∃ length, successor? segments.toUInt64 = some length ∧
        length.toNat = segments.toUInt64.toNat + 1) ∧
    (∀ low high, Interval.make low high = .ok i →
      start curve i step = .error (.tooManySamples i.width step) →
        count.isInf = true ∨ limit ≤ count) := by
  intro count segments limit
  refine ⟨start_eq_badStep_iff, ?_, fun hfinite hlt => ?_, fun low high hmake htoo => ?_⟩
  · obtain ⟨-, hstart⟩ | ⟨-, -, hstart⟩ | ⟨-, hcount, s, hstart, hlength⟩ :=
      start_cases curve i step
    · exact .inl hstart
    · exact .inr (.inl hstart)
    · have hlt := hcount.2
      have hpos : 0 < maxSamples := by decide
      exact .inr (.inr ⟨s, hstart, by omega, by omega, hlength⟩)
  · have hcount : Countable i step := countable_iff.2 ⟨hfinite, hlt⟩
    refine ⟨?_, hcount.exists_successor?⟩
    rw [hcount.toNat_toUInt64, (Number.value_floor hcount.1).2, max_comm]
    exact_mod_cast Int.toNat_eq_max _
  · obtain ⟨hlow, hhigh, -, rfl⟩ := Interval.make_eq_ok_iff.1 hmake
    obtain ⟨hstep, hcount⟩ := start_eq_tooManySamples_iff.1 htoo
    exact of_not_countable hcount (isNaN_stepCount hlow hhigh hstep)

/-- Between samples at distance `0.5` there are two segments of `[0; 1]`, and between samples at
distance `1e-10` there are too many. -/
theorem start_length_unit :
    (Number.floor (stepCount ⟨0, 1⟩ 0.5)).isFinite = true ∧
      (∃ length, successor? (Number.floor (stepCount ⟨0, 1⟩ 0.5)).toUInt64 = some length) ∧
      Interval.make 0 1 = .ok ⟨0, 1⟩ ∧
      start ⟨"x", .var "x"⟩ ⟨0, 1⟩ 1e-10 = .error (.tooManySamples 1 1e-10) ∧
      ((stepCount ⟨0, 1⟩ 1e-10).isInf = true ∨
        maxSamples.toUInt64.toFloat ≤ stepCount ⟨0, 1⟩ 1e-10) := by
  have hfinite : (Number.floor (stepCount ⟨0, 1⟩ 0.5)).isFinite = true := by decide +kernel
  have hlimit : ¬maxSamples.toUInt64.toFloat ≤ Number.floor (stepCount ⟨0, 1⟩ 0.5) := by
    decide +kernel
  have hmake : Interval.make 0 1 = .ok ⟨0, 1⟩ := rfl
  have hstart : start ⟨"x", .var "x"⟩ ⟨0, 1⟩ 1e-10 = .error (.tooManySamples 1 1e-10) := rfl
  obtain ⟨-, -, hcount, -⟩ := start_length ⟨"x", .var "x"⟩ ⟨0, 1⟩ 0.5
  obtain ⟨-, -, -, htoo⟩ := start_length ⟨"x", .var "x"⟩ ⟨0, 1⟩ 1e-10
  obtain ⟨length, hlength, -⟩ := (hcount hfinite hlimit).2
  exact ⟨hfinite, ⟨length, hlength⟩, hmake, hstart, htoo 0 1 hmake hstart⟩

end Scan

end Formula
