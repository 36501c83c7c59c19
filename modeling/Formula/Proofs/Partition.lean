import Mathlib
import Formula.Proofs.Containment

/-!
# Intervals in equal parts

The width of an interval divided by the number of parts is the step, and the width divided by the
step counts the parts again.  Both quotients are rounded, so that the second one can be below the
number of parts, and rounding it down loses the last part.  The tolerance that is added before makes
up for this as long as it is not small against the distance of the numbers around the quotient, and
that is so for up to `2 ^ 24` parts.

* `Scan.Parted` is what is known of an interval and the number of its parts.
* `Scan.Parted.floor_stepCount`: at most the last part is lost.
* `Scan.Parted.le_stepCount` and `Scan.Parted.le_stepCount_of_le`: when it is not.
* **`Scan.start_stepFor`**: how long a scan is whose step is for a number of parts.
-/

namespace Formula

namespace Scan

open Number (value Nearest nearest_add nearest_div error_sub)

variable {curve : Curve} {i : Interval} {low high : Float} {n : UInt64}

/-! ### The step -/

/-- An interval that is not empty is cut into parts with a step that has all its bits. -/
structure Parted (i : Interval) (n : UInt64) : Prop where
  isFinite_width : i.width.isFinite = true
  width_pos : 0 < value i.width
  parts_pos : 0 < n.toNat
  parts_lt : n.toNat < maxSamples
  isFinite_step : (i.stepFor n).isFinite = true
  normal : 2 ^ (-1022 : Int) ≤ value (i.stepFor n)

/-- The rounded width of an interval between different bounds is not zero. -/
theorem width_pos_of_lt (hlow : i.low.isFinite = true) (hhigh : i.high.isFinite = true)
    (hlt : i.low < i.high) (hwidth : i.width.isFinite = true) : 0 < value i.width := by
  have hlt := sub_pos.2 ((Number.lt_iff hlow hhigh).1 hlt)
  have herror := error_sub hhigh hlow hwidth
  rw [abs_of_pos hlt] at herror
  have hge := (abs_le.1 herror).1
  change _ ≤ value i.width - _ at hge
  norm_num at hge
  linarith

/-- The number before a whole number that is more than `2 ^ 23` is `1 / 2 ^ 29` away, or more. -/
theorem natCast_le_of_lt {k : Nat} (hk : 2 ^ 23 < k) {v : Float} (hv : v.isFinite = true)
    (hlt : (k : ℚ) - 1 / 2 ^ 29 < value v) : (k : ℚ) ≤ value v := by
  have hk : (2 ^ 23 : ℚ) + 1 ≤ k := by exact_mod_cast hk
  obtain ⟨z, hz⟩ := Number.exists_multiple hv (e := -29) (.inr (by
    rw [abs_of_pos (by linarith)]
    norm_num
    linarith))
  norm_num at hz
  have hlt : ((k * 2 ^ 29 - 1 : Int) : ℚ) < z := by
    push_cast
    linarith
  have hle : (k * 2 ^ 29 : Int) ≤ z := Int.le_of_sub_one_lt (by exact_mod_cast hlt)
  have hle : (k * 2 ^ 29 : ℚ) ≤ z := by exact_mod_cast hle
  linarith

namespace Parted

theorem step_pos (h : Parted i n) : 0 < value (i.stepFor n) :=
  lt_of_lt_of_le (by positivity) h.normal

theorem value_parts (h : Parted i n) :
    n.toFloat.isFinite = true ∧ value n.toFloat = n.toNat := by
  have hlt : n.toNat < 2 ^ 53 := h.parts_lt.trans (by decide)
  have hvalue := Number.value_toFloat hlt
  rwa [Nat.toUInt64, UInt64.ofNat_toNat] at hvalue

theorem parts_cast_pos (h : Parted i n) : (0 : ℚ) < n.toNat := by exact_mod_cast h.parts_pos

theorem nearest_step (h : Parted i n) : Nearest (value i.width / n.toNat) (i.stepFor n) := by
  obtain ⟨hfinite, hvalue⟩ := h.value_parts
  have hmax : max n 1 = n := by
    show (if n ≤ 1 then 1 else n) = n
    split
    · rename_i hle
      exact UInt64.le_antisymm (UInt64.le_iff_toNat_le.2 h.parts_pos) hle
    · rfl
  rw [Interval.stepFor, hmax, ← hvalue]
  exact nearest_div h.isFinite_width hfinite (by rw [hvalue]; exact h.parts_cast_pos.ne')

/-- The parts together are about as wide as the interval. -/
theorem error_step (h : Parted i n) :
    |n.toNat * value (i.stepFor n) - value i.width| ≤ 2 ^ (-53 : Int) * value i.width ∨
    |n.toNat * value (i.stepFor n) - value i.width| ≤
      2 ^ (-53 : Int) * (n.toNat * value (i.stepFor n)) := by
  have hparts := h.parts_cast_pos
  have hwidth := h.width_pos
  have hscale : n.toNat * value (i.stepFor n) - value i.width =
      n.toNat * (value (i.stepFor n) - value i.width / n.toNat) := by
    field_simp
  rw [hscale, abs_mul, abs_of_pos hparts]
  refine (h.nearest_step.error h.isFinite_step).imp (fun herror => ?_) fun herror => ?_
  · rw [abs_of_pos (div_pos hwidth hparts)] at herror
    calc n.toNat * |value (i.stepFor n) - value i.width / n.toNat|
        ≤ n.toNat * (2 ^ (-53 : Int) * (value i.width / n.toNat)) := by gcongr
      _ = 2 ^ (-53 : Int) * value i.width := by field_simp
  · -- the error of a step that has all its bits is small against the step
    have hsmall : (2 : ℚ) ^ (-1075 : Int) ≤ 2 ^ (-53 : Int) * value (i.stepFor n) := by
      calc (2 : ℚ) ^ (-1075 : Int) = 2 ^ (-53 : Int) * 2 ^ (-1022 : Int) :=
            zpow_add₀ (by norm_num) (-53) (-1022)
        _ ≤ 2 ^ (-53 : Int) * value (i.stepFor n) := by
          have hnormal := h.normal
          gcongr
    calc n.toNat * |value (i.stepFor n) - value i.width / n.toNat|
        ≤ n.toNat * (2 ^ (-53 : Int) * value (i.stepFor n)) := by
          gcongr
          exact herror.trans hsmall
      _ = 2 ^ (-53 : Int) * (n.toNat * value (i.stepFor n)) := by ring

/-- The number of parts before it is rounded. -/
theorem width_div_step (h : Parted i n) :
    (1 - 2 ^ (-53 : Int)) * n.toNat ≤ value i.width / value (i.stepFor n) ∧
      value i.width / value (i.stepFor n) ≤ (1 + 2 ^ (-52 : Int)) * n.toNat := by
  have hpos := h.step_pos
  have hwidth := h.width_pos
  have hproduct : 0 < n.toNat * value (i.stepFor n) := mul_pos h.parts_cast_pos hpos
  have herror := h.error_step
  rw [abs_le, abs_le] at herror
  rw [le_div_iff₀ hpos, div_le_iff₀ hpos, mul_assoc, mul_assoc]
  norm_num at herror ⊢
  rcases herror with ⟨hge, hle⟩ | ⟨hge, hle⟩ <;> constructor <;> linarith

/-! ### The number of parts, rounded -/

theorem nearest_quotient (h : Parted i n) :
    Nearest (value i.width / value (i.stepFor n)) (i.width / i.stepFor n) :=
  nearest_div h.isFinite_width h.isFinite_step h.step_pos.ne'

theorem parts_cast_lt (h : Parted i n) : (n.toNat : ℚ) < 2 ^ 32 := by
  exact_mod_cast h.parts_lt.trans (by decide)

/-- The quotient is less than half a part off. -/
theorem quotient_near (h : Parted i n) : (i.width / i.stepFor n).isFinite = true ∧
    ((2 * n.toNat - 1 : Int) : ℚ) / 2 ^ 1 ≤ value (i.width / i.stepFor n) ∧
      value (i.width / i.stepFor n) ≤ ((2 * n.toNat + 1 : Int) : ℚ) / 2 ^ 1 := by
  have hpos := h.parts_cast_pos
  have hlt := h.parts_cast_lt
  have hlt' : n.toNat < 2 ^ 32 := by exact_mod_cast hlt
  obtain ⟨hge, hle⟩ := h.width_div_step
  have hnonneg := div_nonneg h.width_pos.le h.step_pos.le
  norm_num at hge hle
  have habove : value i.width / value (i.stepFor n) ≤ ((2 * n.toNat + 1 : Int) : ℚ) / 2 ^ 1 := by
    push_cast
    linarith
  have hbelow : ((2 * n.toNat - 1 : Int) : ℚ) / 2 ^ 1 ≤ value i.width / value (i.stepFor n) := by
    push_cast
    linarith
  have hfinite := h.nearest_quotient.isFinite_of_le_div hnonneg (by omega) (by decide) habove
  exact ⟨hfinite, h.nearest_quotient.le_value_of_div_le hfinite (by omega) (by decide) hbelow,
    h.nearest_quotient.value_le_of_le_div hfinite (by omega) (by decide) habove⟩

theorem nearest_stepCount (h : Parted i n) :
    Nearest (value (i.width / i.stepFor n) + value 1e-9) (stepCount i (i.stepFor n)) :=
  nearest_add h.quotient_near.1 value_tolerance.1

/-- With the tolerance, it is less than a part off. -/
theorem stepCount_near (h : Parted i n) : (stepCount i (i.stepFor n)).isFinite = true ∧
    ((2 * n.toNat - 1 : Int) : ℚ) / 2 ^ 1 ≤ value (stepCount i (i.stepFor n)) ∧
      value (stepCount i (i.stepFor n)) ≤ ((4 * n.toNat + 3 : Int) : ℚ) / 2 ^ 2 := by
  have hpos : (1 : ℚ) ≤ n.toNat := by exact_mod_cast h.parts_pos
  have hlt : n.toNat < 2 ^ 32 := by exact_mod_cast h.parts_cast_lt
  obtain ⟨-, hge, hle⟩ := h.quotient_near
  obtain ⟨-, htolerance_pos, htolerance_le⟩ := value_tolerance
  have hbelow := hge.trans (le_add_of_nonneg_right htolerance_pos.le)
  norm_num at htolerance_le
  have habove : value (i.width / i.stepFor n) + value 1e-9 ≤
      ((4 * n.toNat + 3 : Int) : ℚ) / 2 ^ 2 := by
    push_cast at hle ⊢
    linarith
  have hnonneg : 0 ≤ value (i.width / i.stepFor n) + value 1e-9 := by
    push_cast at hge
    linarith
  have hfinite := h.nearest_stepCount.isFinite_of_le_div hnonneg (by omega) (by decide) habove
  exact ⟨hfinite, h.nearest_stepCount.le_value_of_div_le hfinite (by omega) (by decide) hbelow,
    h.nearest_stepCount.value_le_of_le_div hfinite (by omega) (by decide) habove⟩

/-- **At most the last part is lost.** -/
theorem floor_stepCount (h : Parted i n) :
    (n.toNat : Int) - 1 ≤ ⌊value (stepCount i (i.stepFor n))⌋ ∧
      ⌊value (stepCount i (i.stepFor n))⌋ ≤ n.toNat := by
  obtain ⟨-, hge, hle⟩ := h.stepCount_near
  push_cast at hge hle
  constructor
  · rw [Int.le_floor]
    push_cast
    linarith
  · rw [← Int.lt_add_one_iff, Int.floor_lt]
    push_cast
    linarith

/-! ### The last part -/

/-- A quotient that is not below the number of parts stays so with the tolerance. -/
theorem le_stepCount_of_le_sum (h : Parted i n)
    (hle : n.toNat ≤ value (i.width / i.stepFor n) + value 1e-9) :
    (n.toNat : ℚ) ≤ value (stepCount i (i.stepFor n)) := by
  obtain ⟨hparts, hvalue⟩ := h.value_parts
  rw [← hvalue] at hle ⊢
  exact h.nearest_stepCount.le_value h.stepCount_near.1 hparts hle

/-- Nothing is lost if the step has not been rounded up. -/
theorem le_stepCount_of_le (h : Parted i n)
    (hle : n.toNat * value (i.stepFor n) ≤ value i.width) :
    (n.toNat : ℚ) ≤ value (stepCount i (i.stepFor n)) := by
  obtain ⟨hparts, hvalue⟩ := h.value_parts
  have hle := (le_div_iff₀ h.step_pos).2 hle
  rw [← hvalue] at hle
  have hquotient := h.nearest_quotient.le_value h.quotient_near.1 hparts hle
  rw [hvalue] at hquotient
  exact h.le_stepCount_of_le_sum (hquotient.trans (le_add_of_nonneg_right value_tolerance.2.1.le))

/-- Nothing is lost if the tolerance is not small against the distance of the numbers around the
quotient. -/
theorem le_stepCount (h : Parted i n) (hle : n.toNat ≤ 2 ^ 24) :
    (n.toNat : ℚ) ≤ value (stepCount i (i.stepFor n)) := by
  obtain ⟨hfinite, -⟩ := h.quotient_near
  obtain ⟨hcount, -⟩ := h.stepCount_near
  have htolerance : 2 ^ (-30 : Int) < value 1e-9 := by
    rw [value_tolerance_eq]
    norm_num
  have hquotient := h.width_div_step.1
  have hpos := h.parts_pos
  norm_num at htolerance hquotient
  rcases Nat.lt_or_ge (2 ^ 23) n.toNat with hlarge | hsmall
  · -- the sum is nearer to the number of parts than to the number before it
    have hcast : (n.toNat : ℚ) ≤ 2 ^ 24 := by exact_mod_cast hle
    have hge := h.nearest_quotient.le_value_of_div_le hfinite (z := n.toNat * 2 ^ 29 - 1) (k := 29)
      (by omega) (by decide) (by push_cast; linarith)
    push_cast at hge
    rcases le_or_gt (n.toNat : ℚ) (value (i.width / i.stepFor n) + value 1e-9) with hle | hlt
    · exact h.le_stepCount_of_le_sum hle
    · obtain ⟨hparts, hvalue⟩ := h.value_parts
      have hnear := (h.nearest_stepCount.of_isFinite hcount).2 n.toFloat hparts
      rw [hvalue, abs_of_pos (sub_pos.2 hlt)] at hnear
      have hnear := (abs_le.1 hnear).1
      exact natCast_le_of_lt hlarge hcount (by linarith)
  · -- the quotient misses the number of parts by less than the tolerance
    have hcast : (n.toNat : ℚ) ≤ 2 ^ 23 := by exact_mod_cast hsmall
    have hge := h.nearest_quotient.le_value_of_div_le hfinite (z := n.toNat * 2 ^ 30 - 1) (k := 30)
      (by omega) (by decide) (by push_cast; linarith)
    push_cast at hge
    exact h.le_stepCount_of_le_sum (by linarith)

/-- Whether it is lost can be seen before the number of parts is rounded down. -/
theorem floor_stepCount_eq_iff (h : Parted i n) :
    ⌊value (stepCount i (i.stepFor n))⌋ = n.toNat ↔
      (n.toNat : ℚ) ≤ value (stepCount i (i.stepFor n)) := by
  constructor
  · intro heq
    exact_mod_cast Int.le_floor.1 heq.ge
  · intro hge
    exact le_antisymm h.floor_stepCount.2 (Int.le_floor.2 (by exact_mod_cast hge))

/-- There is a scan. -/
theorem exists_start (curve : Curve) (h : Parted i n) :
    ∃ s₀, start curve i (i.stepFor n) = .ok s₀ ∧
      s₀.length = ⌊value (stepCount i (i.stepFor n))⌋.toNat + 1 := by
  obtain ⟨hcount, -⟩ := h.stepCount_near
  have hle := h.floor_stepCount.2
  have hlt := h.parts_lt
  obtain ⟨hstep, -⟩ | ⟨-, hmany, -⟩ | ⟨-, -, hstart⟩ := start_cases curve i (i.stepFor n)
  · exact absurd hstep (not_badStep_iff.2 ⟨h.isFinite_step, h.step_pos⟩)
  · exact absurd ⟨hcount, by omega⟩ hmany
  · exact hstart

end Parted

/-- **How long a scan is whose step is for a number of parts.**  If the bounds of an interval have
been checked and are different, their distance can be measured, and the step that cuts it into `n`
parts has all its bits, then there is a scan with this step, and it has one more sample than there
are parts, or just as many.  It has one more if rounding leaves the quotient of width and step, with
the tolerance, at `n` or above, and only then.  This is so for up to `2 ^ 24` parts, and for any
number of parts if the step has not been rounded up. -/
theorem start_stepFor (curve : Curve) (hi : Interval.make low high = .ok i) (hlt : low < high)
    (hwidth : i.width.isFinite = true) (hpos : 1 ≤ n.toNat) (hmax : n.toNat < maxSamples)
    (hstep : (i.stepFor n).isFinite = true) (hnormal : 2 ^ (-1022 : Int) ≤ value (i.stepFor n)) :
    ∃ s₀, start curve i (i.stepFor n) = .ok s₀ ∧
      (s₀.length = n.toNat + 1 ∨ s₀.length = n.toNat) ∧
      (s₀.length = n.toNat + 1 ↔ n.toFloat ≤ stepCount i (i.stepFor n)) ∧
      (n.toNat ≤ 2 ^ 24 → s₀.length = n.toNat + 1) ∧
      (n.toNat * value (i.stepFor n) ≤ value i.width → s₀.length = n.toNat + 1) := by
  obtain ⟨hlow, hhigh, -, rfl⟩ := Interval.make_eq_ok_iff.1 hi
  have h : Parted ⟨low, high⟩ n :=
    ⟨hwidth, width_pos_of_lt hlow hhigh hlt hwidth, hpos, hmax, hstep, hnormal⟩
  obtain ⟨s₀, hstart, hlength⟩ := h.exists_start curve
  obtain ⟨hparts, hvalue⟩ := h.value_parts
  obtain ⟨hge, hle⟩ := h.floor_stepCount
  have hiff : s₀.length = n.toNat + 1 ↔
      (n.toNat : ℚ) ≤ value (stepCount ⟨low, high⟩ (Interval.stepFor ⟨low, high⟩ n)) := by
    rw [← h.floor_stepCount_eq_iff]
    omega
  refine ⟨s₀, hstart, by omega, ?_, fun hn => hiff.2 (h.le_stepCount hn),
    fun hn => hiff.2 (h.le_stepCount_of_le hn)⟩
  rw [hiff, Number.le_iff hparts h.stepCount_near.1, hvalue]

/-- The four parts of `[0; 1]` have five ends. -/
theorem start_stepFor_quarters :
    Interval.make 0 1 = .ok ⟨0, 1⟩ ∧ (0 : Float) < 1 ∧ Interval.stepFor ⟨0, 1⟩ 4 = 0.25 ∧
      ∃ s₀, start ⟨"x", .var "x"⟩ ⟨0, 1⟩ 0.25 = .ok s₀ ∧ s₀.length = 5 := by
  have hmake : Interval.make 0 1 = .ok ⟨0, 1⟩ := rfl
  have hlt : (0 : Float) < 1 := by decide +kernel
  have hstep : Interval.stepFor ⟨0, 1⟩ 4 = 0.25 := rfl
  have hquarter : value 0.25 = (2 ^ 52 : Nat) * 2 ^ (-54 : Int) :=
    Number.value_of_positive (2 ^ 52) (-54) (by decide) rfl
  have hnormal : (2 : ℚ) ^ (-1022 : Int) ≤ value (Interval.stepFor ⟨0, 1⟩ 4) := by
    rw [hstep, hquarter]
    calc (2 : ℚ) ^ (-1022 : Int) ≤ 2 ^ (-2 : Int) := zpow_le_zpow_right₀ (by norm_num) (by decide)
      _ = (2 ^ 52 : Nat) * 2 ^ (-54 : Int) := by norm_num
  obtain ⟨s₀, hstart, -, -, hlength, -⟩ := start_stepFor ⟨"x", .var "x"⟩ hmake hlt
    (by decide +kernel) (by decide) (by decide) (by decide +kernel) hnormal
  exact ⟨hmake, hlt, hstep, s₀, hstart, hlength (by decide)⟩

/-- With a few more than `2 ^ 24` parts the last one can be lost: this step has been rounded up, and
the quotient is as far below the number of parts as numbers are apart there. -/
theorem exists_start_stepFor_short :
    ∃ i s₀, Interval.make 0 16777219.010416668 = .ok i ∧ i.low < i.high ∧
      i.width.isFinite = true ∧ i.stepFor 16777219 = 1.0000000006208818 ∧
      2 ^ (-1022 : Int) ≤ value 1.0000000006208818 ∧
      start ⟨"x", .var "x"⟩ i 1.0000000006208818 = .ok s₀ ∧ s₀.length = 16777219 := by
  have hsegments :
      Number.floor (stepCount ⟨0, 16777219.010416668⟩ 1.0000000006208818) = 16777218 := rfl
  have hstart : start ⟨"x", .var "x"⟩ ⟨0, 16777219.010416668⟩ 1.0000000006208818 =
      .ok ⟨⟨"x", .var "x"⟩, 0, 1.0000000006208818, 16777219, 0, Nat.zero_le _⟩ := by
    simp only [start, hsegments]
    rfl
  have hstep : value 1.0000000006208818 = (4503599630166699 : Nat) * 2 ^ (-52 : Int) :=
    Number.value_of_positive 4503599630166699 (-52) (by decide) rfl
  refine ⟨_, _, rfl, by decide +kernel, by decide +kernel, rfl, ?_, hstart, rfl⟩
  calc (2 : ℚ) ^ (-1022 : Int) ≤ 1 := zpow_le_one_of_nonpos₀ (by norm_num) (by decide)
    _ ≤ value 1.0000000006208818 := by
      rw [hstep]
      norm_num

end Scan

end Formula
