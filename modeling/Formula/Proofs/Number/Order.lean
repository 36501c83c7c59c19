import Mathlib
import Formula.Proofs.Number.Arithmetic

/-!
# The order of numbers

All numbers but NaN have a place on the line of rational numbers with an end on both sides, and they
are compared as their places are.  Two numbers share a place only if they are equal, but for the
two zeros.

* `Number.place` is the place of a number.
* **`Number.lt_iff_place`** and **`Number.le_iff_place`**: numbers are compared as their places are.
* `Number.eq_of_value_eq`: a value other than zero belongs to one number.
* `Number.cases_of_place_eq`: what numbers at the same place have in common.
* `Number.value_abs`: the value without its sign.
* `Number.sub_zero` and `Number.isNaN_sub_self`: differences that are not rounded.
-/

namespace Formula

namespace Number

open Float.Model (Format UnpackedFloat)

variable {m n : Nat} {q r : Int} {v w : Float} {s t : UnpackedFloat.Sign}

/-! ### Places -/

/-- A number that is not NaN is finite or infinite. -/
theorem number_cases (h : v.isNaN = false) :
    v.isFinite = true ∨ ∃ s, v.toModel.unpack = .infinity s := by
  have h : v.toModel.unpack.isNaN = false := h
  show v.toModel.unpack.isFinite = true ∨ _
  cases hv : v.toModel.unpack with
  | notANumber => rw [hv] at h; cases h
  | infinity s => exact .inr ⟨s, rfl⟩
  | zero s | finite s m q hm => exact .inl rfl

theorem isInf_iff : v.isInf = true ↔ ∃ s, v.toModel.unpack = .infinity s := by
  show v.toModel.unpack.isInf = true ↔ _
  cases v.toModel.unpack <;> simp [UnpackedFloat.isInf]

/-- The end of the line on that side. -/
def extreme : UnpackedFloat.Sign → WithBot (WithTop ℚ)
  | .negative => ⊥
  | .positive => ⊤

theorem extreme_injective (h : extreme s = extreme t) : s = t := by
  cases s <;> cases t <;> first | rfl | cases h

/-- Where a number is on the line with two ends.  NaN has no place, and counts as zero. -/
def place (v : Float) : WithBot (WithTop ℚ) :=
  match v.toModel.unpack with
  | .infinity s => extreme s
  | _ => ((value v : WithTop ℚ) : WithBot (WithTop ℚ))

theorem place_of_isFinite (h : v.isFinite = true) :
    place v = ((value v : WithTop ℚ) : WithBot (WithTop ℚ)) := by
  unfold place
  obtain ⟨s, hv⟩ | ⟨s, m, q, hm, hv, -⟩ := finite_cases h <;> rw [hv]

theorem place_of_infinity (h : v.toModel.unpack = .infinity s) : place v = extreme s := by
  rw [place, h]

theorem compare_place (x y : ℚ) :
    compare ((x : WithTop ℚ) : WithBot (WithTop ℚ)) ((y : WithTop ℚ) : WithBot (WithTop ℚ)) =
      compare x y := by
  rcases lt_trichotomy x y with h | rfl | h
  · rw [compare_lt_iff_lt.2 h, compare_lt_iff_lt, WithBot.coe_lt_coe, WithTop.coe_lt_coe]
    exact h
  · rw [compare_eq_iff_eq.2 rfl, compare_eq_iff_eq.2 rfl]
  · rw [compare_gt_iff_gt.2 h, compare_gt_iff_gt, WithBot.coe_lt_coe, WithTop.coe_lt_coe]
    exact h

/-- The ends are beyond all values. -/
theorem compare_extreme (x : ℚ) (t : UnpackedFloat.Sign) :
    compare ((x : WithTop ℚ) : WithBot (WithTop ℚ)) (extreme t) =
      match t with | .negative => .gt | .positive => .lt := by
  cases t with
  | negative => exact compare_gt_iff_gt.2 (WithBot.bot_lt_coe _)
  | positive => exact compare_lt_iff_lt.2 (WithBot.coe_lt_coe.2 (WithTop.coe_lt_top _))

theorem extreme_compare (x : ℚ) (s : UnpackedFloat.Sign) :
    compare (extreme s) ((x : WithTop ℚ) : WithBot (WithTop ℚ)) =
      match s with | .negative => .lt | .positive => .gt := by
  cases s with
  | negative => exact compare_lt_iff_lt.2 (WithBot.bot_lt_coe _)
  | positive => exact compare_gt_iff_gt.2 (WithBot.coe_lt_coe.2 (WithTop.coe_lt_top _))

/-- Numbers are compared as their places are. -/
theorem compare_unpack_place (hv : v.isNaN = false) (hw : w.isNaN = false) :
    v.toModel.unpack.compare w.toModel.unpack = some (compare (place v) (place w)) := by
  rcases number_cases hv with hv | ⟨s, hv⟩ <;> rcases number_cases hw with hw | ⟨t, hw⟩
  · rw [compare_unpack hv hw, place_of_isFinite hv, place_of_isFinite hw, compare_place]
  · rw [place_of_isFinite hv, place_of_infinity hw, compare_extreme, hw]
    obtain ⟨s, hv⟩ | ⟨s, m, q, hm, hv, -⟩ := finite_cases hv <;> rw [hv] <;> cases t <;> rfl
  · rw [place_of_infinity hv, place_of_isFinite hw, extreme_compare, hv]
    obtain ⟨t, hw⟩ | ⟨t, m, q, hm, hw, -⟩ := finite_cases hw <;> rw [hw] <;> cases s <;> rfl
  · rw [place_of_infinity hv, place_of_infinity hw, hv, hw]
    cases s <;> cases t <;> first
      | exact congrArg some (compare_eq_iff_eq.2 rfl).symm
      | exact congrArg some (compare_lt_iff_lt.2 bot_lt_top).symm
      | exact congrArg some (compare_gt_iff_gt.2 bot_lt_top).symm

/-- A number is less than another if its place is. -/
theorem lt_iff_place (hv : v.isNaN = false) (hw : w.isNaN = false) :
    v < w ↔ place v < place w := by
  show decide (v.toModel < w.toModel) = true ↔ _
  rw [decide_eq_true_iff]
  show (v.toModel.unpack.compare w.toModel.unpack == some .lt) = true ↔ _
  rw [compare_unpack_place hv hw, beq_iff_eq, Option.some.injEq, compare_lt_iff_lt]

/-- A number is at most another if its place is. -/
theorem le_iff_place (hv : v.isNaN = false) (hw : w.isNaN = false) :
    v ≤ w ↔ place v ≤ place w := by
  rw [le_iff_isLE, compare_unpack_place hv hw, Option.any_some, ← Ordering.ne_gt_iff_isLE]
  exact compare_le_iff_le

/-- NaN is not less than anything. -/
theorem not_lt_of_isNaN (h : v.isNaN = true) : ¬v < w := by
  have h : v.toModel.unpack.isNaN = true := h
  show ¬decide (v.toModel < w.toModel) = true
  rw [decide_eq_true_iff]
  show ¬(v.toModel.unpack.compare w.toModel.unpack == some .lt) = true
  cases hv : v.toModel.unpack with
  | notANumber => exact Bool.false_ne_true
  | infinity s | zero s | finite s m q hm => rw [hv] at h; cases h

/-! ### Equal numbers -/

theorem eq_of_unpack_eq (h : v.toModel.unpack = w.toModel.unpack) : v = w := by
  rw [← ofModel_pack_unpack v, h, ofModel_pack_unpack]

/-- A value other than zero belongs to one number. -/
theorem eq_of_value_eq (hv : v.isFinite = true) (hw : w.isFinite = true) (h : value v = value w)
    (hne : value w ≠ 0) : v = w := by
  apply eq_of_unpack_eq
  obtain ⟨s, hv⟩ | ⟨s, m, q, hm, hv, hmq⟩ := finite_cases hv
  · exact absurd (h ▸ value_of_zero hv) hne
  obtain ⟨t, hw⟩ | ⟨t, n, r, hn, hw, hnr⟩ := finite_cases hw
  · exact absurd (value_of_zero hw) hne
  rw [value_of_finite hv, value_of_finite hw] at h
  have hpos : (0 : ℚ) < m * 2 ^ q := by positivity
  have hpos' : (0 : ℚ) < n * 2 ^ r := by positivity
  -- the signs agree, since the other parts have none
  have hsign : s = t ∧ (m : ℚ) * 2 ^ q = n * 2 ^ r := by
    cases s <;> cases t <;>
      simp only [UnpackedFloat.Sign.apply, Int.cast_neg, Int.cast_natCast, neg_mul] at h
    · exact ⟨rfl, neg_inj.1 h⟩
    · linarith
    · linarith
    · exact ⟨rfl, h⟩
  obtain ⟨rfl, habs⟩ := hsign
  have hcompare := hmq.compare_eq hnr
  rw [compare_eq_iff_eq.2 habs, Ordering.then_eq_eq, compare_eq_iff_eq, compare_eq_iff_eq]
    at hcompare
  obtain ⟨rfl, rfl⟩ := hcompare
  rw [hv, hw]

/-- Numbers at the same place are finite and have the same value, or are infinite and equal. -/
theorem cases_of_place_eq (hv : v.isNaN = false) (hw : w.isNaN = false) (h : place v = place w) :
    (v.isFinite = true ∧ w.isFinite = true ∧ value v = value w) ∨
      v.isInf = true ∧ v = w := by
  rcases number_cases hv with hv | ⟨s, hv⟩ <;> rcases number_cases hw with hw | ⟨t, hw⟩
  · rw [place_of_isFinite hv, place_of_isFinite hw, WithBot.coe_inj, WithTop.coe_inj] at h
    exact .inl ⟨hv, hw, h⟩
  · rw [place_of_isFinite hv, place_of_infinity hw] at h
    cases t <;> cases h
  · rw [place_of_infinity hv, place_of_isFinite hw] at h
    cases s <;> cases h
  · rw [place_of_infinity hv, place_of_infinity hw] at h
    exact .inr ⟨isInf_iff.2 ⟨s, hv⟩, eq_of_unpack_eq (by rw [hv, hw, extreme_injective h])⟩

/-! ### Without a sign -/

theorem unpack_abs (v : Float) : v.abs.toModel.unpack = v.toModel.unpack.abs := by
  show (Float.Model.pack v.toModel.unpack.abs).unpack = _
  cases hv : v.toModel.unpack with
  | notANumber => rfl
  | infinity s => exact unpack_pack_infinity .positive
  | zero s => exact (rfl : (Float.Model.pack (.zero .positive)).unpack = .zero .positive)
  | finite s m q hm => exact (canonical_of_unpack hv).unpack_pack .positive

theorem isNaN_abs (v : Float) : v.abs.isNaN = v.isNaN := by
  show v.abs.toModel.unpack.isNaN = v.toModel.unpack.isNaN
  rw [unpack_abs]
  cases v.toModel.unpack <;> rfl

theorem isFinite_abs (v : Float) : v.abs.isFinite = v.isFinite := by
  show v.abs.toModel.unpack.isFinite = v.toModel.unpack.isFinite
  rw [unpack_abs]
  cases v.toModel.unpack <;> rfl

/-- The value without its sign. -/
theorem value_abs (v : Float) : value v.abs = |value v| := by
  unfold value
  rw [unpack_abs]
  cases v.toModel.unpack with
  | notANumber | infinity s | zero s => simp [UnpackedFloat.abs]
  | finite s m q hm => cases s <;> simp [UnpackedFloat.abs, UnpackedFloat.Sign.apply, abs_mul]

/-! ### Differences -/

/-- Nothing changes if zero is subtracted. -/
theorem sub_zero (v : Float) : v - 0 = v := by
  have hsub : v.toModel.unpack.sub Format.binary64 (.zero .positive) = v.toModel.unpack := by
    cases v.toModel.unpack with
    | zero s => cases s <;> rfl
    | notANumber | infinity s | finite s m q hm => rfl
  show .ofModel (.pack (v.toModel.unpack.sub Format.binary64 (.zero .positive))) = v
  rw [hsub, ofModel_pack_unpack]

/-- An infinite number has no difference from itself. -/
theorem isNaN_sub_self (h : v.toModel.unpack = .infinity s) : (v - v).isNaN = true := by
  show (Float.Model.pack (v.toModel.unpack.sub Format.binary64 v.toModel.unpack)).unpack.isNaN = _
  rw [h]
  cases s <;> rfl

end Number

end Formula
