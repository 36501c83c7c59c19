import Mathlib
import Formula.Proofs.Number.ReadBack
import Formula.Proofs.Number.Value

/-!
# Nearest numbers

A rational number is rounded to the nearest `Float`, or to infinity if it lies farther out than the
middle between the largest finite number and the next power of two.  Which of two equally near
numbers is taken does not matter here.

* `Number.exists_multiple` and `Number.exists_value_eq`: finite numbers are the multiples of powers
  of two by integers of 53 bits.
* `Number.Nearest` says that a number is the rounded value of `x`.
* `Number.Nearest.le`, `Number.Nearest.ge`: rounding does not cross a number.
* `Number.Nearest.value_eq`: what can be a number is exact.
* **`Number.Nearest.abs_sub_le`** and **`Number.Nearest.error`**: the error of rounding.
-/

namespace Formula

namespace Number

open Float.Model (Format UnpackedFloat totalExponent)
open Float.Model.UnpackedFloat

variable {v w : Float} {x y : ℚ} {m n : Nat} {e q : Int}

theorem two_zpow_sub_one (e : Int) : (2 : ℚ) ^ (e - 1) = 2 ^ e / 2 := zpow_sub_one₀ (by norm_num) e

/-! ### The finite numbers -/

theorem value_neg (v : Float) : value (-v) = -value v := by
  have hneg : (-v).toModel.unpack = v.toModel.unpack.neg := unpack_neg v.toModel
  unfold value
  rw [hneg]
  cases v.toModel.unpack with
  | notANumber | infinity s | zero s => simp [UnpackedFloat.neg]
  | finite s m q hm => cases s <;> simp [UnpackedFloat.neg, UnpackedFloat.Sign.apply]

/-- The value of a number without a sign. -/
theorem value_of_positive (m : Nat) (q : Int) (hm : 0 < m)
    (h : v.toModel.unpack = .finite .positive m q hm) : value v = m * 2 ^ q :=
  value_of_finite h

/-- A mantissa of 53 bits is shifted until it is that of a `Float`. -/
theorem exists_canonical (hn : n ≠ 0) (hlt : n < 2 ^ 53) (he : -1074 ≤ e)
    (hx : (n : ℚ) * 2 ^ e < 2 ^ (1024 : Int)) :
    ∃ m q, Canonical m q ∧ (m : ℚ) * 2 ^ q = n * 2 ^ e := by
  have hlog : n.log2 < 53 := (Nat.log2_lt hn).2 hlt
  have hlow : 2 ^ n.log2 ≤ n := (Nat.le_log2 hn).1 (Nat.le_refl _)
  have hhigh : n < 2 ^ (n.log2 + 1) := (Nat.log2_lt hn).1 (Nat.lt_succ_self _)
  have hrange : (n.log2 : Int) + e < 1024 := by
    have hpow : (2 : ℚ) ^ ((n.log2 : Int) + e) < 2 ^ (1024 : Int) := by
      calc (2 : ℚ) ^ ((n.log2 : Int) + e) = ((2 ^ n.log2 : Nat) : ℚ) * 2 ^ e := by
            rw [zpow_add₀ (by norm_num), zpow_natCast]
            push_cast
            rfl
        _ ≤ n * 2 ^ e := by gcongr
        _ < 2 ^ (1024 : Int) := hx
    exact (zpow_lt_zpow_iff_right₀ (by norm_num)).1 hpow
  -- the mantissa is full, or the exponent is the least one
  obtain ⟨j, hj⟩ : ∃ j : Nat, j = min (52 - n.log2) (e + 1074).toNat := ⟨_, rfl⟩
  refine ⟨n * 2 ^ j, e - j, ⟨?_, ?_, by omega, by omega, ?_⟩, ?_⟩
  · exact Nat.mul_pos (Nat.pos_of_ne_zero hn) (Nat.two_pow_pos j)
  · calc n * 2 ^ j < 2 ^ (n.log2 + 1) * 2 ^ j :=
          Nat.mul_lt_mul_of_pos_right hhigh (Nat.two_pow_pos j)
      _ ≤ 2 ^ 53 := by
        rw [← Nat.pow_add]
        exact Nat.pow_le_pow_right (by decide) (by omega)
  · by_cases hfull : 52 - n.log2 ≤ (e + 1074).toNat
    · refine .inl ?_
      calc 2 ^ 52 = 2 ^ n.log2 * 2 ^ j := by
            rw [← Nat.pow_add]
            congr 1
            omega
        _ ≤ n * 2 ^ j := Nat.mul_le_mul_right _ hlow
    · exact .inr (by omega)
  · rw [zpow_sub₀ (by norm_num), zpow_natCast]
    push_cast
    field_simp

/-- The multiples of a power of two by integers of 53 bits are numbers. -/
theorem exists_value_eq {z : Int} (hz : z.natAbs ≤ 2 ^ 53) (he : -1074 ≤ e)
    (hx : (z.natAbs : ℚ) * 2 ^ e < 2 ^ (1024 : Int)) :
    ∃ v : Float, v.isFinite = true ∧ value v = z * 2 ^ e := by
  -- what is left is a sign and a natural number
  suffices h : ∀ n : Nat, n ≤ 2 ^ 53 → (n : ℚ) * 2 ^ e < 2 ^ (1024 : Int) →
      ∃ v : Float, v.isFinite = true ∧ value v = n * 2 ^ e by
    obtain ⟨v, hv, hvalue⟩ := h z.natAbs hz hx
    rcases z.natAbs_eq with hpos | hneg
    · refine ⟨v, hv, ?_⟩
      rw [hvalue, hpos, Int.natAbs_natCast, Int.cast_natCast]
    · refine ⟨-v, by rw [isFinite_neg, hv], ?_⟩
      rw [value_neg, hvalue, hneg, Int.natAbs_neg, Int.natAbs_natCast, Int.cast_neg,
        Int.cast_natCast, neg_mul]
  intro n hn hx
  rcases Nat.eq_zero_or_pos n with rfl | hpos
  · exact ⟨0.0, by decide, by rw [value_of_zero (s := .positive) rfl]; simp⟩
  · obtain ⟨m, q, hcanonical, hmq⟩ : ∃ m q, Canonical m q ∧ (m : ℚ) * 2 ^ q = n * 2 ^ e := by
      rcases hn.lt_or_eq with hlt | rfl
      · exact exists_canonical (by omega) hlt he hx
      · have hhalf : ((2 ^ 53 : Nat) : ℚ) * 2 ^ e = ((2 ^ 52 : Nat) : ℚ) * 2 ^ (e + 1) := by
          rw [zpow_add_one₀ (by norm_num)]
          push_cast
          ring
        rw [hhalf] at hx ⊢
        exact exists_canonical (by decide) (by decide) (by omega) hx
    refine ⟨.ofModel (.pack (.finite .positive m q hcanonical.pos)),
      hcanonical.isFinite_pack .positive, ?_⟩
    rw [hcanonical.value_pack, ← hmq]
    rfl

/-- Integers of 53 bits, divided by a power of two, are numbers. -/
theorem exists_number {z : Int} (hz : z.natAbs ≤ 2 ^ 53) {k : Nat} (hk : k ≤ 1074) :
    ∃ b : Float, b.isFinite = true ∧ value b = z / 2 ^ k := by
  obtain ⟨b, hb, hvalue⟩ := exists_value_eq hz (e := -k) (by omega) (by
    calc (z.natAbs : ℚ) * 2 ^ (-k : Int) ≤ 2 ^ (53 : Int) * 1 := by
          gcongr
          · exact_mod_cast hz
          · exact zpow_le_one_of_nonpos₀ (by norm_num) (by omega)
      _ < 2 ^ (1024 : Int) := by
          rw [mul_one]
          exact zpow_lt_zpow_right₀ (by norm_num) (by decide))
  exact ⟨b, hb, by rw [hvalue, zpow_neg, zpow_natCast, div_eq_mul_inv]⟩

/-- A finite number is a multiple of the powers of two that its 53 bits reach down to. -/
theorem exists_multiple (hv : v.isFinite = true) (h : e ≤ -1074 ∨ 2 ^ (e + 52) ≤ |value v|) :
    ∃ z : Int, value v = z * 2 ^ e := by
  obtain ⟨s, hv⟩ | ⟨s, m, q, hm, hv, hmq⟩ := finite_cases hv
  · exact ⟨0, by rw [value_of_zero hv, Int.cast_zero, zero_mul]⟩
  · have habs : |value v| = m * 2 ^ q := by
      rw [value_of_finite hv]
      cases s <;> simp [UnpackedFloat.Sign.apply, abs_mul]
    have heq : e ≤ q := by
      rcases h with h | h
      · exact h.trans hmq.le
      · have hlt : (2 : ℚ) ^ (e + 52) < 2 ^ (53 + q) := by
          calc (2 : ℚ) ^ (e + 52) ≤ m * 2 ^ q := habs ▸ h
            _ < 2 ^ (53 : Int) * 2 ^ q := by
              gcongr
              exact_mod_cast hmq.lt
            _ = 2 ^ (53 + q) := (zpow_add₀ (by norm_num) _ _).symm
        have := (zpow_lt_zpow_iff_right₀ (by norm_num)).1 hlt
        omega
    obtain ⟨k, rfl⟩ : ∃ k : Nat, q = e + k := ⟨(q - e).toNat, by omega⟩
    refine ⟨s.apply m * 2 ^ k, ?_⟩
    rw [value_of_finite hv, zpow_add₀ (by norm_num), zpow_natCast]
    push_cast
    ring

/-- The middle between the largest finite number and the next power of two. -/
def overflow : ℚ := 2 ^ (1024 : Int) - 2 ^ (970 : Int)

theorem overflow_eq : overflow = (2 ^ 54 - 1) * 2 ^ (970 : Int) := by
  have htop : (2 : ℚ) ^ (1024 : Int) = 2 ^ 54 * 2 ^ (970 : Int) := by
    rw [← zpow_natCast, ← zpow_add₀ (by norm_num)]
    rfl
  rw [overflow, htop, sub_mul, one_mul]

theorem overflow_pos : 0 < overflow := by
  rw [overflow_eq]
  positivity

theorem overflow_lt : overflow < 2 ^ (1024 : Int) := sub_lt_self _ (by positivity)

/-- The largest finite number. -/
theorem abs_value_le (hv : v.isFinite = true) : |value v| ≤ overflow - 2 ^ (970 : Int) := by
  have hpow : (0 : ℚ) < 2 ^ (970 : Int) := by positivity
  rw [overflow_eq]
  obtain ⟨s, hv⟩ | ⟨s, m, q, hm, hv, hmq⟩ := finite_cases hv
  · rw [value_of_zero hv, abs_zero]
    generalize (2 : ℚ) ^ (970 : Int) = u at hpow ⊢
    linarith
  · have hm : (m : ℚ) ≤ 2 ^ 53 - 1 := by
      rw [le_sub_iff_add_le]
      exact_mod_cast hmq.lt
    have hq : (2 : ℚ) ^ q ≤ 2 * 2 ^ (970 : Int) := by
      rw [← zpow_one_add₀ (by norm_num)]
      exact zpow_le_zpow_right₀ (by norm_num) hmq.ge
    have habs : |value v| = m * 2 ^ q := by
      rw [value_of_finite hv]
      cases s <;> simp [UnpackedFloat.Sign.apply, abs_mul]
    rw [habs]
    generalize (2 : ℚ) ^ (970 : Int) = u at hpow hq ⊢
    calc (m : ℚ) * 2 ^ q ≤ (2 ^ 53 - 1) * (2 * u) := by gcongr
      _ = (2 ^ 54 - 1) * u - u := by ring

theorem abs_value_lt (hv : v.isFinite = true) : |value v| < overflow :=
  (abs_value_le hv).trans_lt (sub_lt_self _ (by positivity))

/-! ### Infinite numbers -/

theorem le_iff_isLE : v ≤ w ↔ (v.toModel.unpack.compare w.toModel.unpack).any (·.isLE) = true := by
  show decide (v.toModel ≤ w.toModel) = true ↔ _
  rw [decide_eq_true_iff]
  rfl

theorem le_of_infinity_negative (hv : v.toModel.unpack = .infinity .negative)
    (hw : w.isFinite = true) : v ≤ w := by
  rw [le_iff_isLE, hv]
  obtain ⟨s, hw⟩ | ⟨s, m, q, hm, hw, -⟩ := finite_cases hw <;> rw [hw] <;> rfl

theorem le_of_infinity_positive (hv : v.isFinite = true)
    (hw : w.toModel.unpack = .infinity .positive) : v ≤ w := by
  rw [le_iff_isLE, hw]
  obtain ⟨s, hv⟩ | ⟨s, m, q, hm, hv, -⟩ := finite_cases hv <;> rw [hv] <;> cases s <;> rfl

/-! ### Rounded values -/

/-- The number `v` is the value `x`, rounded. -/
inductive Nearest (x : ℚ) (v : Float) : Prop
  /-- No finite number is nearer. -/
  | finite (hv : v.isFinite = true) (hx : |x| ≤ overflow)
      (h : ∀ w : Float, w.isFinite = true → |value v - x| ≤ |value w - x|)
  /-- The value is too far out. -/
  | infinite (s : UnpackedFloat.Sign) (hv : v.toModel.unpack = .infinity s)
      (hx : overflow ≤ (s.apply 1 : Int) * x)

/-- A value that is a number is rounded to itself. -/
theorem nearest_value (hv : v.isFinite = true) : Nearest (value v) v := by
  refine .finite hv (abs_value_lt hv).le ?_
  intro w hw
  rw [sub_self, abs_zero]
  exact abs_nonneg _

namespace Nearest

theorem of_isFinite (h : Nearest x v) (hv : v.isFinite = true) :
    |x| ≤ overflow ∧ ∀ w : Float, w.isFinite = true → |value v - x| ≤ |value w - x| := by
  cases h with
  | finite _ hx h => exact ⟨hx, h⟩
  | infinite s hs =>
    have hv : v.toModel.unpack.isFinite = true := hv
    rw [hs] at hv
    cases hv

/-- Rounding does not get above a number. -/
theorem le (h : Nearest x v) (hw : w.isFinite = true) (hx : x ≤ value w) : v ≤ w := by
  cases h with
  | finite hv _ h =>
    rw [le_iff hv hw]
    by_contra hlt
    have hnearest := h w hw
    rw [abs_of_nonneg (by linarith), abs_of_nonneg (by linarith)] at hnearest
    linarith
  | infinite s hv hoverflow =>
    cases s with
    | negative => exact le_of_infinity_negative hv hw
    | positive =>
      have hlt := (abs_lt.1 (abs_value_lt hw)).2
      simp only [UnpackedFloat.Sign.apply, Int.cast_one, one_mul] at hoverflow
      linarith

/-- Rounding does not get below a number. -/
theorem ge (h : Nearest x v) (hw : w.isFinite = true) (hx : value w ≤ x) : w ≤ v := by
  cases h with
  | finite hv _ h =>
    rw [le_iff hw hv]
    by_contra hlt
    have hnearest := h w hw
    rw [abs_of_nonpos (by linarith), abs_of_nonpos (by linarith)] at hnearest
    linarith
  | infinite s hv hoverflow =>
    cases s with
    | positive => exact le_of_infinity_positive hw hv
    | negative =>
      have hlt := (abs_lt.1 (abs_value_lt hw)).1
      simp only [UnpackedFloat.Sign.apply, Int.cast_neg, Int.cast_one, neg_mul, one_mul]
        at hoverflow
      linarith

theorem value_le (h : Nearest x v) (hv : v.isFinite = true) (hw : w.isFinite = true)
    (hx : x ≤ value w) : value v ≤ value w :=
  (le_iff hv hw).1 (h.le hw hx)

theorem le_value (h : Nearest x v) (hv : v.isFinite = true) (hw : w.isFinite = true)
    (hx : value w ≤ x) : value w ≤ value v :=
  (le_iff hw hv).1 (h.ge hw hx)

theorem value_nonneg (h : Nearest x v) (hv : v.isFinite = true) (hx : 0 ≤ x) : 0 ≤ value v := by
  have hzero : value 0.0 = 0 := value_of_zero (s := .positive) rfl
  have hge := h.le_value hv (w := 0.0) (by decide) (hzero.le.trans hx)
  rwa [hzero] at hge

/-- A value between numbers is not too far out. -/
theorem isFinite (h : Nearest x v) (hw : w.isFinite = true) (hx : |x| ≤ |value w|) :
    v.isFinite = true := by
  cases h with
  | finite hv => exact hv
  | infinite s hv hoverflow =>
    have hlt := hx.trans_lt (abs_value_lt hw)
    have hle := neg_le_abs x
    have hle' := le_abs_self x
    cases s <;>
      simp only [UnpackedFloat.Sign.apply, Int.cast_neg, Int.cast_one, neg_mul, one_mul]
        at hoverflow
    · exact absurd hlt (by linarith)
    · exact absurd hlt (by linarith)

/-- What can be a number is exact. -/
theorem value_eq (h : Nearest (value w) v) (hw : w.isFinite = true) :
    v.isFinite = true ∧ value v = value w := by
  have hv := h.isFinite hw le_rfl
  have hnearest := (h.of_isFinite hv).2 w hw
  rw [sub_self, abs_zero, abs_nonpos_iff, sub_eq_zero] at hnearest
  exact ⟨hv, hnearest⟩

/-- Rounding does not cross the numbers with few bits behind the point. -/
theorem value_le_of_le_div (h : Nearest x v) (hv : v.isFinite = true) {z : Int}
    (hz : z.natAbs ≤ 2 ^ 53) {k : Nat} (hk : k ≤ 1074) (hx : x ≤ z / 2 ^ k) :
    value v ≤ z / 2 ^ k := by
  obtain ⟨b, hb, hvalue⟩ := exists_number hz hk
  rw [← hvalue] at hx ⊢
  exact h.value_le hv hb hx

theorem le_value_of_div_le (h : Nearest x v) (hv : v.isFinite = true) {z : Int}
    (hz : z.natAbs ≤ 2 ^ 53) {k : Nat} (hk : k ≤ 1074) (hx : z / 2 ^ k ≤ x) :
    z / 2 ^ k ≤ value v := by
  obtain ⟨b, hb, hvalue⟩ := exists_number hz hk
  rw [← hvalue] at hx ⊢
  exact h.le_value hv hb hx

/-- A value that is not as far out as such a number is not too far out. -/
theorem isFinite_of_le_div (h : Nearest x v) (hpos : 0 ≤ x) {z : Int} (hz : z.natAbs ≤ 2 ^ 53)
    {k : Nat} (hk : k ≤ 1074) (hx : x ≤ z / 2 ^ k) : v.isFinite = true := by
  obtain ⟨b, hb, hvalue⟩ := exists_number hz hk
  rw [← hvalue] at hx
  exact h.isFinite hb (by rwa [abs_of_nonneg hpos, abs_of_nonneg (hpos.trans hx)])

/-! ### The error of rounding -/

/-- Values without a sign have a multiple of `2 ^ e` that is a number at most half as far off. -/
theorem exists_near (hx : 0 ≤ x) (hx' : x ≤ overflow) (he : -1074 ≤ e) (he' : e ≤ 971)
    (hlt : x ≤ 2 ^ (e + 53)) :
    ∃ w : Float, w.isFinite = true ∧ |value w - x| ≤ 2 ^ (e - 1) := by
  have hpow : (0 : ℚ) < 2 ^ e := by positivity
  -- the multiple is the lower one if the value is in the middle
  set z : Int := ⌈x / 2 ^ e - 1 / 2⌉ with hz
  have hge : x / 2 ^ e - 1 / 2 ≤ z := Int.le_ceil _
  have hlt' : (z : ℚ) < x / 2 ^ e - 1 / 2 + 1 := Int.ceil_lt_add_one _
  have hnonneg : 0 ≤ z := by
    have hdiv : 0 ≤ x / 2 ^ e := by positivity
    have hcast : ((-1 : Int) : ℚ) < z := by push_cast; linarith
    have : -1 < z := by exact_mod_cast hcast
    omega
  obtain ⟨n, hn⟩ := Int.eq_ofNat_of_zero_le hnonneg
  have hx₁ : x = x / 2 ^ e * 2 ^ e := by field_simp
  have hcast : (z : ℚ) = n := by rw [hn]; rfl
  rw [hcast] at hge hlt'
  obtain ⟨w, hw, hvalue⟩ : ∃ w : Float, w.isFinite = true ∧ value w = z * 2 ^ e := by
    refine exists_value_eq ?_ he ?_
    · have hdiv : x / 2 ^ e ≤ 2 ^ 53 := by
        rw [div_le_iff₀ hpow, ← zpow_natCast, ← zpow_add₀ (by norm_num), add_comm]
        exact hlt
      have hlt : (n : ℚ) < (2 ^ 53 + 1 : Nat) := by push_cast; linarith
      have hlt : n < 2 ^ 53 + 1 := by exact_mod_cast hlt
      rw [hn, Int.natAbs_natCast]
      omega
    · have hle : (2 : ℚ) ^ e ≤ 2 * 2 ^ (970 : Int) := by
        rw [← zpow_one_add₀ (by norm_num)]
        exact zpow_le_zpow_right₀ (by norm_num) he'
      rw [overflow] at hx'
      rw [hn, Int.natAbs_natCast]
      generalize (2 : ℚ) ^ (970 : Int) = u at hle hx'
      generalize (2 : ℚ) ^ (1024 : Int) = t at hx' ⊢
      calc (n : ℚ) * 2 ^ e < (x / 2 ^ e + 1 / 2) * 2 ^ e := by gcongr; linarith
        _ = x + 2 ^ e / 2 := by rw [add_mul, ← hx₁]; ring
        _ ≤ t := by linarith
  refine ⟨w, hw, ?_⟩
  have herror : value w - x = (n - x / 2 ^ e) * 2 ^ e := by
    rw [hvalue, hcast, sub_mul, ← hx₁]
  have hclose : |(n : ℚ) - x / 2 ^ e| ≤ 1 / 2 := by
    rw [abs_le]
    constructor <;> linarith
  calc |value w - x| = |(n : ℚ) - x / 2 ^ e| * 2 ^ e := by rw [herror, abs_mul, abs_of_pos hpow]
    _ ≤ 1 / 2 * 2 ^ e := by gcongr
    _ = 2 ^ (e - 1) := by rw [two_zpow_sub_one]; ring

/-- **The error of rounding** is at most half a unit in the last place. -/
theorem abs_sub_le (h : Nearest x v) (hv : v.isFinite = true) (he : -1074 ≤ e) (he' : e ≤ 971)
    (hlt : |x| ≤ 2 ^ (e + 53)) : |value v - x| ≤ 2 ^ (e - 1) := by
  obtain ⟨hx, h⟩ := h.of_isFinite hv
  obtain ⟨w, hw, hnear⟩ := exists_near (abs_nonneg x) hx he he' hlt
  rcases abs_cases x with ⟨habs, -⟩ | ⟨habs, -⟩
  · rw [habs] at hnear
    exact (h w hw).trans hnear
  · have hneg := h (-w) (by rw [isFinite_neg, hw])
    rw [value_neg, ← abs_neg (-value w - x), neg_sub', neg_neg, ← habs] at hneg
    exact hneg.trans hnear

/-- The error of rounding is small against the value, or against everything. -/
theorem error (h : Nearest x v) (hv : v.isFinite = true) :
    |value v - x| ≤ 2 ^ (-53 : Int) * |x| ∨ |value v - x| ≤ 2 ^ (-1075 : Int) := by
  have hleast (hlt : |x| ≤ 2 ^ (-1021 : Int)) : |value v - x| ≤ 2 ^ (-1075 : Int) := by
    have h := h.abs_sub_le (e := -1074) hv (by decide) (by decide)
    simp only [Int.reduceAdd, Int.reduceSub] at h
    exact h hlt
  rcases eq_or_ne x 0 with rfl | hne
  · refine .inr (hleast ?_)
    rw [abs_zero]
    positivity
  · have hpos : 0 < |x| := abs_pos.2 hne
    have hlow := Int.zpow_log_le_self (b := 2) (by decide) hpos
    have hhigh := Int.lt_zpow_succ_log_self (b := 2) (by decide) |x|
    push_cast at hlow hhigh
    generalize Int.log 2 |x| = l at hlow hhigh
    have hl : l < 1024 := by
      have hlt := hlow.trans_lt ((h.of_isFinite hv).1.trans_lt overflow_lt)
      exact (zpow_lt_zpow_iff_right₀ (by norm_num)).1 hlt
    rcases le_total (l - 52) (-1074) with hle | hle
    · refine .inr (hleast (hhigh.le.trans ?_))
      exact zpow_le_zpow_right₀ (by norm_num) (by omega)
    · have herror := h.abs_sub_le hv hle (by omega) (hhigh.le.trans
        (zpow_le_zpow_right₀ (by norm_num) (by omega)))
      refine .inl (herror.trans ?_)
      calc (2 : ℚ) ^ (l - 52 - 1) = 2 ^ (-53 : Int) * 2 ^ l := by
            rw [← zpow_add₀ (by norm_num)]
            congr 1
            omega
        _ ≤ 2 ^ (-53 : Int) * |x| := by gcongr

/-- Multiples of the least number do not lose their last bits. -/
theorem error_of_multiple (h : Nearest x v) (hv : v.isFinite = true) {z : Int}
    (hx : x = z * 2 ^ (-1074 : Int)) : |value v - x| ≤ 2 ^ (-53 : Int) * |x| := by
  refine (h.error hv).elim id fun hle => ?_
  -- two multiples that are so near are the same
  obtain ⟨k, hk⟩ := exists_multiple hv (.inl (le_refl (-1074)))
  have hpow : (0 : ℚ) < 2 ^ (-1074 : Int) := by positivity
  have hhalf := two_zpow_sub_one (-1074)
  simp only [Int.reduceSub] at hhalf
  rw [hhalf] at hle
  generalize (2 : ℚ) ^ (-1074 : Int) = u at *
  have hkz : k = z := by
    by_contra hne
    have hone : (1 : ℚ) ≤ |(k : ℚ) - z| := by exact_mod_cast Int.one_le_abs (sub_ne_zero.2 hne)
    rw [hk, hx, ← sub_mul, abs_mul, abs_of_pos hpow] at hle
    have hfar := mul_le_mul_of_nonneg_right hone hpow.le
    linarith
  rw [hk, hkz, ← hx, sub_self, abs_zero]
  positivity

end Nearest

end Number

end Formula
