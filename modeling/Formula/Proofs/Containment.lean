import Mathlib
import Formula.Proofs.Drawing
import Formula.Proofs.Lengths
import Formula.Proofs.Number.Arithmetic

/-!
# Samples inside the interval

The number of samples comes from a rounded quotient, to which a tolerance is added, and each sample
from a rounded product and a rounded sum.  No sample lies below the interval, and none but the last
lies above it.  The last one is meant to meet the upper bound and can lie above it, although the
interval is closed: by the tolerance and by the rounding, and by any distance where the steps come
to more than the largest number.

* `Scan.Measured` is what is known of an interval and a step once a scan has started.
* `Scan.Measured.le_of_le_floor`: where the points lie, before they are rounded.
* `Scan.Measured.low_le_point` and `Scan.Measured.point_le_high`: the two bounds.
* **`Scan.drawAll_within`**: whatever is drawn from a scan lies in its interval, up to the last
  sample, and how far out that one is.
* `Scan.exists_sample_above`: a scan with its last sample above the interval.
-/

namespace Formula

namespace Scan

open Number (value Nearest nearest_add nearest_sub nearest_mul nearest_div error_add error_sub
  error_mul_of_whole)

variable {curve : Curve} {i : Interval} {step low high : Float} {s₀ : Scan} {k : Nat}

/-! ### What is known of a scan -/

/-- The bounds of an interval have been checked, and so have a step and the number of segments. -/
structure Measured (i : Interval) (step : Float) : Prop where
  isFinite_low : i.low.isFinite = true
  isFinite_high : i.high.isFinite = true
  low_le_high : value i.low ≤ value i.high
  isFinite_step : step.isFinite = true
  step_pos : 0 < value step
  countable : Countable i step

theorem not_badStep_iff : ¬BadStep step ↔ step.isFinite = true ∧ 0 < value step := by
  have hzero : value 0.0 = 0 := Number.value_of_zero (s := .positive) rfl
  rw [← check_step]
  cases hfinite : step.isFinite with
  | false => simp
  | true =>
    rw [Bool.not_true, Bool.false_or, decide_eq_true_eq, Number.le_iff hfinite (by decide), hzero,
      not_le, eq_self, true_and]

theorem measured_of_start (hi : Interval.make low high = .ok i)
    (h : start curve i step = .ok s₀) :
    Measured i step ∧ s₀.length = ⌊value (stepCount i step)⌋.toNat + 1 := by
  obtain ⟨hlow, hhigh, hle, rfl⟩ := Interval.make_eq_ok_iff.1 hi
  obtain ⟨-, hstart⟩ | ⟨-, -, hstart⟩ | ⟨hstep, hcount, s, hstart, hlength⟩ :=
    start_cases curve ⟨low, high⟩ step <;> rw [hstart] at h
  · cases h
  · cases h
  · cases h
    obtain ⟨hstep, hpos⟩ := not_badStep_iff.1 hstep
    exact ⟨⟨hlow, hhigh, (Number.le_iff hlow hhigh).1 hle, hstep, hpos, hcount⟩, hlength⟩

/-- The tolerance in counting steps. -/
theorem value_tolerance_eq : value 1e-9 = (4835703278458517 : Nat) * 2 ^ (-82 : Int) :=
  Number.value_of_positive 4835703278458517 (-82) (by decide) rfl

theorem value_tolerance : (1e-9 : Float).isFinite = true ∧ 0 < value 1e-9 ∧
    value 1e-9 ≤ (1 + 2 ^ (-53 : Int)) / 10 ^ 9 := by
  refine ⟨by decide, ?_, ?_⟩ <;> rw [value_tolerance_eq] <;> norm_num

namespace Measured

theorem isFinite_quotient (h : Measured i step) : (i.width / step).isFinite = true := by
  have hcount : (i.width / step + 1e-9).isFinite = true := h.countable.1
  exact Number.isFinite_of_add hcount value_tolerance.1

theorem isFinite_width (h : Measured i step) : i.width.isFinite = true :=
  Number.isFinite_of_div h.isFinite_quotient h.isFinite_step h.step_pos.ne'

/-- The error of the width. -/
theorem error_width (h : Measured i step) :
    |value i.width - (value i.high - value i.low)| ≤
      2 ^ (-53 : Int) * (value i.high - value i.low) := by
  have herror := error_sub h.isFinite_high h.isFinite_low h.isFinite_width
  rwa [abs_of_nonneg (sub_nonneg.2 h.low_le_high)] at herror

theorem width_nonneg (h : Measured i step) : 0 ≤ value i.width :=
  (nearest_sub h.isFinite_high h.isFinite_low).value_nonneg h.isFinite_width
    (sub_nonneg.2 h.low_le_high)

theorem quotient_nonneg (h : Measured i step) : 0 ≤ value (i.width / step) :=
  (nearest_div h.isFinite_width h.isFinite_step h.step_pos.ne').value_nonneg h.isFinite_quotient
    (div_nonneg h.width_nonneg h.step_pos.le)

/-- The error of the number of steps before the tolerance is added, in units of the variable. -/
theorem error_quotient (h : Measured i step) :
    |value (i.width / step) * value step - value i.width| ≤
      2 ^ (-53 : Int) * value i.width + 2 ^ (-100 : Int) * value step := by
  have hpos := h.step_pos
  have hwidth := h.width_nonneg
  have hscale : value (i.width / step) * value step - value i.width =
      (value (i.width / step) - value i.width / value step) * value step := by
    field_simp
  have hdiv := nearest_div h.isFinite_width h.isFinite_step hpos.ne'
  rw [hscale, abs_mul, abs_of_pos hpos]
  rcases hdiv.error h.isFinite_quotient with herror | herror
  · rw [abs_of_nonneg (a := value i.width / value step) (by positivity)] at herror
    calc |value (i.width / step) - value i.width / value step| * value step
        ≤ 2 ^ (-53 : Int) * (value i.width / value step) * value step := by gcongr
      _ = 2 ^ (-53 : Int) * value i.width := by field_simp
      _ ≤ _ := le_add_of_nonneg_right (by positivity)
  · have hsmall : (2 : ℚ) ^ (-1075 : Int) ≤ 2 ^ (-100 : Int) :=
      zpow_le_zpow_right₀ (by norm_num) (by decide)
    calc |value (i.width / step) - value i.width / value step| * value step
        ≤ 2 ^ (-100 : Int) * value step := by gcongr; exact herror.trans hsmall
      _ ≤ _ := le_add_of_nonneg_left (by positivity)

/-- The error of adding the tolerance. -/
theorem error_stepCount (h : Measured i step) :
    |value (stepCount i step) - (value (i.width / step) + value 1e-9)| ≤
      2 ^ (-53 : Int) * (value (i.width / step) + value 1e-9) := by
  obtain ⟨hfinite, hpos, -⟩ := value_tolerance
  have herror := error_add h.isFinite_quotient hfinite h.countable.1
  have hnonneg := h.quotient_nonneg
  rwa [abs_of_nonneg (a := value (i.width / step) + value 1e-9) (by linarith)] at herror

theorem stepCount_nonneg (h : Measured i step) : 0 ≤ value (stepCount i step) :=
  (nearest_add h.isFinite_quotient value_tolerance.1).value_nonneg h.countable.1
    (add_nonneg h.quotient_nonneg value_tolerance.2.1.le)

/-- The numbers of the samples are exact. -/
theorem lt_of_le_floor (h : Measured i step) (hk : (k : Int) ≤ ⌊value (stepCount i step)⌋) :
    k < 2 ^ 53 := by
  have hmax := h.countable.2
  norm_num [maxSamples] at hmax
  omega

/-- **Where the points lie**, before they are rounded: beyond the interval by a billionth of a step
at most, and by what rounding adds to that. -/
theorem le_of_le_floor (h : Measured i step) (hk : (k : Int) ≤ ⌊value (stepCount i step)⌋) :
    (k : ℚ) * value step ≤
      (1 + 2 ^ (-51 : Int)) * (value i.high - value i.low + value step / 10 ^ 9) := by
  have hpos := h.step_pos
  have hordered := h.low_le_high
  have hle : (k : ℚ) ≤ value (stepCount i step) := by exact_mod_cast Int.le_floor.1 hk
  have hwidth := (abs_le.1 h.error_width).2
  have hquotient := (abs_le.1 h.error_quotient).2
  have hcount := (abs_le.1 h.error_stepCount).2
  have htolerance := mul_le_mul_of_nonneg_right value_tolerance.2.2 hpos.le
  have hk : (k : ℚ) * value step ≤ (1 + 2 ^ (-53 : Int)) *
      (value (i.width / step) * value step + value 1e-9 * value step) := by
    calc (k : ℚ) * value step
        ≤ (1 + 2 ^ (-53 : Int)) * (value (i.width / step) + value 1e-9) * value step := by
          gcongr
          linarith
      _ = _ := by ring
  norm_num at hwidth hquotient htolerance hk ⊢
  linarith

/-- The interval is not too many steps wide. -/
theorem width_le (h : Measured i step) : value i.high - value i.low ≤ 2 ^ 33 * value step := by
  have hpos := h.step_pos
  have hordered := h.low_le_high
  have hlt : value (stepCount i step) ≤ 2 ^ 32 := by
    have hfloor := Int.lt_floor_add_one (value (stepCount i step))
    have hmax : (⌊value (stepCount i step)⌋ : ℚ) ≤ (maxSamples : Int) := by
      exact_mod_cast h.countable.2.le
    norm_num [maxSamples] at hmax
    linarith
  have hwidth := (abs_le.1 h.error_width).1
  have hquotient := (abs_le.1 h.error_quotient).1
  have hcount := (abs_le.1 h.error_stepCount).1
  have htolerance := value_tolerance.2.1
  have hsteps : value (i.width / step) * value step ≤
      2 ^ 32 * (1 + 2 ^ (-50 : Int)) * value step := by
    gcongr
    norm_num at hcount ⊢
    linarith
  norm_num at hwidth hquotient hsteps ⊢
  linarith

/-! ### The two bounds -/

/-- No sample lies below the interval. -/
theorem low_le_point (h : Measured i step) (hlt : k < 2 ^ 53) :
    i.low ≤ i.low + k.toUInt64.toFloat * step := by
  obtain ⟨hk, hvalue⟩ := Number.value_toFloat hlt
  have hproduct := nearest_mul hk h.isFinite_step
  have hnonneg : 0 ≤ value k.toUInt64.toFloat * value step := by
    rw [hvalue]
    have hpos := h.step_pos
    positivity
  cases hfinite : (k.toUInt64.toFloat * step).isFinite with
  | true =>
    refine (nearest_add h.isFinite_low hfinite).ge h.isFinite_low ?_
    exact le_add_of_nonneg_right (hproduct.value_nonneg hfinite hnonneg)
  | false =>
    -- a product that is too far out is so above the interval
    cases hproduct with
    | finite hv => rw [hv] at hfinite; cases hfinite
    | infinite s hv hx =>
      cases s with
      | positive =>
        exact Number.le_of_infinity_positive h.isFinite_low
          (Number.unpack_add_of_infinity h.isFinite_low hv)
      | negative =>
        have hoverflow := Number.overflow_pos
        simp only [Float.Model.UnpackedFloat.Sign.apply, Int.cast_neg, Int.cast_one, neg_mul,
          one_mul] at hx
        linarith

/-- What rounding adds to a point. -/
theorem value_product_le (h : Measured i step) (hlt : k < 2 ^ 53)
    (hfinite : (k.toUInt64.toFloat * step).isFinite = true) :
    value (k.toUInt64.toFloat * step) ≤ (1 + 2 ^ (-53 : Int)) * (k * value step) := by
  obtain ⟨hk, hvalue⟩ := Number.value_toFloat hlt
  have hpos := h.step_pos
  have herror := error_mul_of_whole (k := k) hk h.isFinite_step hfinite (by rw [hvalue]; rfl)
  rw [hvalue, abs_of_nonneg (a := (k : ℚ) * value step) (by positivity)] at herror
  have hle := (abs_le.1 herror).2
  linarith

/-- No sample but the last lies above the interval. -/
theorem point_le_high (h : Measured i step) (hk : (k : Int) + 1 ≤ ⌊value (stepCount i step)⌋) :
    i.low + k.toUInt64.toFloat * step ≤ i.high := by
  have hlt := h.lt_of_le_floor ((Int.le_add_one le_rfl).trans hk)
  obtain ⟨hk', hvalue⟩ := Number.value_toFloat hlt
  have hpos := h.step_pos
  have hordered := h.low_le_high
  have hwide := h.width_le
  -- the next point is near the end at most, and a step is much more than rounding adds
  have hbefore : (k : ℚ) * value step ≤
      (1 - 2 ^ (-34 : Int)) * (value i.high - value i.low) := by
    have hnext := h.le_of_le_floor (k := k + 1) (by exact_mod_cast hk)
    push_cast at hnext
    norm_num at hnext hwide ⊢
    linarith
  have hproduct := nearest_mul hk' h.isFinite_step
  have hfinite : (k.toUInt64.toFloat * step).isFinite = true := by
    refine hproduct.isFinite h.isFinite_width ?_
    have hwidth := (abs_le.1 h.error_width).1
    rw [hvalue, abs_of_nonneg (by positivity), abs_of_nonneg h.width_nonneg]
    norm_num at hwidth hbefore ⊢
    linarith
  have hrounded := h.value_product_le hlt hfinite
  refine (nearest_add h.isFinite_low hfinite).le h.isFinite_high ?_
  norm_num at hbefore hrounded
  linarith

/-- The last sample misses the upper bound by little, unless it is infinite. -/
theorem point_le (h : Measured i step) (hk : (k : Int) ≤ ⌊value (stepCount i step)⌋)
    (hfinite : (k.toUInt64.toFloat * step).isFinite = true) {b : Float} (hb : b.isFinite = true)
    (hle : value i.low +
      (1 + 2 ^ (-50 : Int)) * (value i.high - value i.low + value step / 10 ^ 9) ≤ value b) :
    i.low + k.toUInt64.toFloat * step ≤ b := by
  have hlt := h.lt_of_le_floor hk
  have hpos := h.step_pos
  have hordered := h.low_le_high
  have hpoint := h.le_of_le_floor hk
  have hrounded := h.value_product_le hlt hfinite
  refine (nearest_add h.isFinite_low hfinite).le hb ?_
  norm_num at hpoint hrounded hle ⊢
  linarith

end Measured

/-- Whatever is drawn from a scan is the sample at some position. -/
theorem exists_sample_of_mem_drawAll (s : Scan) {ds : List Draw} {p : Sample}
    (hp : p ∈ (s.drawAll ds).1) : ∃ k < s.length, p = s.sample k := by
  have hp := List.mem_of_mem_drop (List.mem_of_mem_take ((s.fst_drawAll_sublist ds).subset hp))
  obtain ⟨k, hk, rfl⟩ := List.mem_map.1 hp
  exact ⟨k, List.mem_range.1 hk, rfl⟩

/-- **Samples lie inside the interval**, up to the last one.  Let bounds that have been checked and
a step give a scan `s₀`, and let `p` be drawn from it.  Then `p` is the sample at some position `k`.
It does not lie below the interval, and if it is not the last sample it does not lie above it.  The
last sample can lie above the interval: before it is rounded it is not farther out than a billionth
of a step, and what rounding adds to that is small against the interval; this is still so after it
has been rounded, unless `k` steps come to more than the largest number, and then it is infinite. -/
theorem drawAll_within (hi : Interval.make low high = .ok i) (h : start curve i step = .ok s₀)
    (ds : List Draw) :
    ∀ p ∈ (s₀.drawAll ds).1, ∃ k < s₀.length, p = s₀.sample k ∧
      i.low ≤ p.x ∧ (k + 1 < s₀.length → p.x ≤ i.high) ∧
      (k : ℚ) * value step ≤
        (1 + 2 ^ (-51 : Int)) * (value i.high - value i.low + value step / 10 ^ 9) ∧
      ((k.toUInt64.toFloat * step).isFinite = true → ∀ b : Float, b.isFinite = true →
        value i.low + (1 + 2 ^ (-50 : Int)) * (value i.high - value i.low + value step / 10 ^ 9) ≤
          value b → p.x ≤ b) := by
  obtain ⟨hmeasured, hlength⟩ := measured_of_start hi h
  obtain ⟨rfl, hlow, rfl, -⟩ := of_start h
  intro p hp
  obtain ⟨k, hk, rfl⟩ := s₀.exists_sample_of_mem_drawAll hp
  have hx : (s₀.sample k).x = i.low + k.toUInt64.toFloat * s₀.step := by rw [← hlow]; rfl
  have hfloor := Int.floor_nonneg.2 hmeasured.stepCount_nonneg
  have hle : (k : Int) ≤ ⌊value (stepCount i s₀.step)⌋ := by omega
  rw [hx]
  refine ⟨k, hk, rfl, hmeasured.low_le_point (hmeasured.lt_of_le_floor hle), fun hnext => ?_,
    hmeasured.le_of_le_floor hle, fun hfinite b => hmeasured.point_le hle hfinite⟩
  exact hmeasured.point_le_high (by omega)

/-- In steps of `0.1`, the first ten samples of `[0; 1]` lie inside, and the last one lies inside or
nearly so. -/
theorem drawAll_within_tenths :
    ∃ s₀, Interval.make 0 1 = .ok ⟨0, 1⟩ ∧ start ⟨"x", .var "x"⟩ ⟨0, 1⟩ 0.1 = .ok s₀ ∧
      s₀.length = 11 ∧ ∀ p ∈ (s₀.drawAll [.take 11]).1, ∃ k < 11, p = s₀.sample k ∧ 0 ≤ p.x ∧
        (k < 10 → p.x ≤ 1) ∧ (k = 10 → p.x ≤ 1.000001) := by
  have hmake : Interval.make 0 1 = .ok ⟨0, 1⟩ := rfl
  have hsegments : Number.floor (stepCount ⟨0, 1⟩ 0.1) = 10 := rfl
  have hstart : start ⟨"x", .var "x"⟩ ⟨0, 1⟩ 0.1 =
      .ok ⟨⟨"x", .var "x"⟩, 0, 0.1, 11, 0, Nat.zero_le _⟩ := by
    simp only [start, hsegments]
    rfl
  refine ⟨_, hmake, hstart, rfl, fun p hp => ?_⟩
  obtain ⟨k, hk, hsample, hlow, hhigh, -, hlast⟩ := drawAll_within hmake hstart [.take 11] p hp
  refine ⟨k, hk, hsample, hlow, fun hlt => hhigh (Nat.succ_lt_succ hlt), ?_⟩
  rintro rfl
  refine hlast rfl _ (by decide) ?_
  have hzero : value 0 = 0 := Number.value_of_zero (s := .positive) rfl
  have hone : value 1 = (2 ^ 52 : Nat) * 2 ^ (-52 : Int) :=
    Number.value_of_positive (2 ^ 52) (-52) (by decide) rfl
  have htenth : value 0.1 = (7205759403792794 : Nat) * 2 ^ (-56 : Int) :=
    Number.value_of_positive 7205759403792794 (-56) (by decide) rfl
  have hbound : value 1.000001 = (4503604130970123 : Nat) * 2 ^ (-52 : Int) :=
    Number.value_of_positive 4503604130970123 (-52) (by decide) rfl
  rw [hzero, hone, htenth, hbound]
  norm_num

/-- Two steps that are rounded up cover `[0; 1.7976931348623157e308]`, and the second one ends at no
number. -/
example : (start ⟨"x", .var "x"⟩ ⟨0, 1.7976931348623157e308⟩ 8.98846567431975e307).map
    (fun s => (s.length, (s.sample 2).x.isInf)) = .ok (3, true) := by decide +kernel

/-- Samples do not stay inside the interval: `[0; 0.9999999999]` has room for one step of `1` when
the tolerance has been added, and its last sample is at `1`. -/
theorem exists_sample_above :
    ∃ i s₀ p, Interval.make 0 0.9999999999 = .ok i ∧ start ⟨"x", .var "x"⟩ i 1 = .ok s₀ ∧
      p ∈ (s₀.drawAll [.take 2]).1 ∧ ¬p.x ≤ i.high := by
  have hsegments : Number.floor (stepCount ⟨0, 0.9999999999⟩ 1) = 1 := rfl
  have hstart : start ⟨"x", .var "x"⟩ ⟨0, 0.9999999999⟩ 1 =
      .ok ⟨⟨"x", .var "x"⟩, 0, 1, 2, 0, Nat.zero_le _⟩ := by
    simp only [start, hsegments]
    rfl
  refine ⟨_, _, _, rfl, hstart, List.mem_cons_of_mem _ List.mem_cons_self, ?_⟩
  decide +kernel

end Scan

end Formula
