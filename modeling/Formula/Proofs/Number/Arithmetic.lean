import Mathlib
import Formula.Proofs.Number.Nearest

/-!
# Arithmetic of numbers

Sums, differences, products and quotients of finite numbers are the exact results, rounded.  They
are computed with so many bits that what is left out is at most a fraction of the last place, of
which only its order relative to one half is kept.

* `Number.Locates` says where a value lies relative to a mantissa and the middle above it, and
  `Number.Locates.shiftRight` that dropping bits keeps track of it.
* **`Number.nearest_roundWithAccuracy`**: what is kept is enough to round.
* **`Number.nearest_add`**, **`Number.nearest_sub`**, **`Number.nearest_mul`** and
  **`Number.nearest_div`**: the operations.
-/

namespace Formula

namespace Number

open Float.Model (Format UnpackedFloat totalExponent)
open Float.Model.UnpackedFloat

variable {v w : Float} {x y : ℚ} {m n : Nat} {e q r t : Int} {a : Accuracy}
  {em : ExtendedMantissa} {s : UnpackedFloat.Sign}

/-! ### Signs -/

theorem apply_eq_mul (s : UnpackedFloat.Sign) (z : Int) : s.apply z = s.apply 1 * z := by
  cases s <;> simp [UnpackedFloat.Sign.apply]

theorem apply_mul (s t : UnpackedFloat.Sign) : (s * t).apply 1 = s.apply 1 * t.apply 1 := by
  cases s <;> cases t <;> rfl

theorem apply_div (s t : UnpackedFloat.Sign) :
    (((s / t).apply 1 : Int) : ℚ) = (s.apply 1 : Int) / (t.apply 1 : Int) := by
  have happly : (s / t).apply 1 = s.apply 1 * t.apply 1 := by cases s <;> cases t <;> rfl
  have hself : ((t.apply 1 : Int) : ℚ)⁻¹ = (t.apply 1 : Int) := by
    cases t <;> norm_num [UnpackedFloat.Sign.apply]
  rw [happly, Int.cast_mul, div_eq_mul_inv, hself]

/-! ### What is left out -/

/-- The value `y` lies at the mantissa `m`, or between it and the next one: below the middle, in it
or above it. -/
def Locates (m : Nat) (y : ℚ) : Accuracy → Prop
  | .exact => y = m
  | .inexact .lt => m < y ∧ y < m + 1 / 2
  | .inexact .eq => y = m + 1 / 2
  | .inexact .gt => m + 1 / 2 < y ∧ y < m + 1

theorem Locates.le (h : Locates m y a) : (m : ℚ) ≤ y := by
  unfold Locates at h
  split at h <;> linarith

/-- Halving a mantissa keeps track of the value. -/
theorem Locates.shiftRightOne (h : Locates em.mantissa y em.accuracy) :
    Locates em.shiftRightOne.mantissa (y / 2) em.shiftRightOne.accuracy := by
  obtain ⟨m, b, c⟩ := em
  have hm : (m : ℚ) = 2 * (m / 2 : Nat) + (m % 2 : Nat) := by
    exact_mod_cast (Nat.div_add_mod m 2).symm
  -- the bit that is dropped is the new round bit, and the old ones become the sticky bit
  rcases Nat.mod_two_eq_zero_or_one m with hbit | hbit <;> cases b <;> cases c <;>
    simp [ExtendedMantissa.accuracy, ExtendedMantissa.shiftRightOne, Locates, hbit] at h hm ⊢ <;>
    grind

theorem Locates.shiftRight (h : Locates em.mantissa y em.accuracy) (k : Nat) :
    Locates (em >>> k).mantissa (y / 2 ^ k) (em >>> k).accuracy := by
  induction k with
  | zero =>
    rw [pow_zero, div_one]
    exact h
  | succ k ih =>
    rw [pow_succ, ← div_div]
    exact ih.shiftRightOne

theorem locates_ofMantissaAndAccuracy (h : Locates m y a) :
    Locates (ExtendedMantissa.ofMantissaAndAccuracy m a).mantissa y
      (ExtendedMantissa.ofMantissaAndAccuracy m a).accuracy := by
  cases a with
  | exact => exact h
  | inexact o => cases o <;> exact h

theorem mantissa_ofMantissaAndAccuracy (m : Nat) (a : Accuracy) :
    (ExtendedMantissa.ofMantissaAndAccuracy m a).mantissa = m := by
  cases a with
  | exact => rfl
  | inexact o => cases o <;> rfl

/-- The rounded mantissa is at most half a unit off. -/
theorem Locates.abs_roundedMantissa_sub_le (h : Locates em.mantissa y em.accuracy) :
    |(em.roundedMantissa : ℚ) - y| ≤ 1 / 2 := by
  have hmod : em.mantissa % 2 = 0 ∨ em.mantissa % 2 = 1 := Nat.mod_two_eq_zero_or_one _
  rw [ExtendedMantissa.roundedMantissa, abs_le]
  unfold Locates at h
  split at h <;> rename_i ha <;> rw [ha, Accuracy.roundToNearestEven]
  · constructor <;> linarith
  · constructor <;> linarith
  · rcases hmod with hmod | hmod <;> rw [hmod] <;> push_cast <;> constructor <;> linarith
  · push_cast
    constructor <;> linarith

theorem mantissa_le_roundedMantissa (em : ExtendedMantissa) :
    em.mantissa ≤ em.roundedMantissa ∧ em.roundedMantissa ≤ em.mantissa + 1 := by
  unfold ExtendedMantissa.roundedMantissa Accuracy.roundToNearestEven
  split <;> omega

/-- The place of a fraction below one. -/
theorem locates_accuracyOfFraction (hmn : n < m) (k : Nat) :
    Locates k (k + n / m) (accuracyOfFraction n m) := by
  have hm : (0 : ℚ) < m := by exact_mod_cast Nat.zero_lt_of_lt hmn
  unfold accuracyOfFraction
  split
  · rename_i hn
    simp [Locates, hn]
  · rename_i hn
    have hn : (0 : ℚ) < n := by exact_mod_cast Nat.pos_of_ne_zero hn
    have hlt : (n : ℚ) < m := by exact_mod_cast hmn
    have hpos : (0 : ℚ) < n / m := by positivity
    have hone : (n : ℚ) / m < 1 := (div_lt_one hm).2 hlt
    rcases lt_trichotomy (2 * n) m with h | h | h
    · rw [compare_lt_iff_lt.2 h]
      have h : (n : ℚ) / m < 1 / 2 := by
        rw [div_lt_div_iff₀ hm (by norm_num)]
        exact_mod_cast (by omega : n * 2 < 1 * m)
      exact ⟨by linarith, by linarith⟩
    · rw [compare_eq_iff_eq.2 h]
      have h : (n : ℚ) / m = 1 / 2 := by
        rw [div_eq_div_iff hm.ne' (by norm_num)]
        exact_mod_cast (by omega : n * 2 = 1 * m)
      simp only [Locates, h]
    · rw [compare_gt_iff_gt.2 h]
      have h : (1 : ℚ) / 2 < n / m := by
        rw [div_lt_div_iff₀ (by norm_num) hm]
        exact_mod_cast (by omega : 1 * m < n * 2)
      exact ⟨by linarith, by linarith⟩

/-! ### Rounding -/

/-- A mantissa of 53 bits, or the next one after them, has the exponent that rounding aims at, or
the next. -/
theorem exists_shiftToTargetExponent (hn : n ≠ 0) (hle : n ≤ 2 ^ 53) (ht : -1074 ≤ t)
    (hfull : 2 ^ 52 ≤ n ∨ t = -1074) :
    ∃ m r, shiftToTargetExponent Format.binary64 n t .exact = (⟨m, false, false⟩, r) ∧
      (m : ℚ) * 2 ^ r = n * 2 ^ t ∧ 0 < m ∧ m < 2 ^ 53 ∧ t ≤ r ∧ (2 ^ 52 ≤ m ∨ r = -1074) := by
  rcases hle.lt_or_eq with hlt | rfl
  · have hlog : n.log2 < 53 := (Nat.log2_lt hn).2 hlt
    have hshift : (Format.binary64.targetExponent (totalExponent n t) - t).toNat = 0 := by
      rw [Format.targetExponent, totalExponent]
      simp only [Format.mantissaBits, Format.minExponent]
      omega
    refine ⟨n, t, ?_, rfl, Nat.pos_of_ne_zero hn, hlt, le_rfl, hfull⟩
    simp only [shiftToTargetExponent, shiftToExponent, hshift]
    exact Prod.ext rfl (Int.add_zero t)
  · have hshift : (Format.binary64.targetExponent (totalExponent (2 ^ 53) t) - t).toNat = 1 := by
      rw [Format.targetExponent, totalExponent, Nat.log2_two_pow]
      simp only [Format.mantissaBits, Format.minExponent]
      omega
    refine ⟨2 ^ 52, t + 1, ?_, ?_, by decide, by decide, by omega, .inl le_rfl⟩
    · simp only [shiftToTargetExponent, shiftToExponent, hshift]
      rfl
    · rw [zpow_add_one₀ (by norm_num)]
      push_cast
      ring

/-- Of the multiples of `u` the nearest one is as near as any. -/
theorem abs_sub_le_of_multiple {u : ℚ} (hu : 0 < u) {k : Int} (h : |k * u - x| ≤ u / 2) (z : Int) :
    |k * u - x| ≤ |z * u - x| := by
  rcases eq_or_ne z k with rfl | hne
  · exact le_rfl
  · have hone : (1 : ℚ) ≤ |(z : ℚ) - k| := by
      exact_mod_cast Int.one_le_abs (sub_ne_zero.2 hne)
    have hfar : u ≤ |z * u - k * u| := by
      rw [← sub_mul, abs_mul, abs_of_pos hu]
      exact le_mul_of_one_le_left hu.le hone
    have htriangle := abs_sub_le (z * u) x (k * u)
    rw [abs_sub_comm x] at htriangle
    linarith

/-- The nearest multiple of a power of two is the nearest number, if the numbers so far out are
such multiples. -/
theorem abs_sub_le_of_grid {k : Int} (h : |k * 2 ^ t - x| ≤ 2 ^ (t - 1))
    (hgrid : 2 ^ (t + 52) ≤ x ∨ t = -1074) (hw : w.isFinite = true) :
    |k * 2 ^ t - x| ≤ |value w - x| := by
  have hpow : (0 : ℚ) < 2 ^ t := by positivity
  rw [two_zpow_sub_one] at h
  by_cases hmultiple : t ≤ -1074 ∨ 2 ^ (t + 52) ≤ |value w|
  · obtain ⟨z, hz⟩ := exists_multiple hw hmultiple
    rw [hz]
    exact abs_sub_le_of_multiple hpow h z
  · -- the power of two where the multiples begin is nearer than `w`
    have hlow : 2 ^ (t + 52) ≤ x := by
      rcases hgrid with hgrid | rfl
      · exact hgrid
      · exact absurd (.inl le_rfl) hmultiple
    have hlt : value w < 2 ^ (t + 52) :=
      lt_of_le_of_lt (le_abs_self _) (not_le.1 fun hle => hmultiple (.inr hle))
    have hbegin : ((2 ^ 52 : Int) : ℚ) * 2 ^ t = 2 ^ (t + 52) := by
      rw [add_comm, zpow_add₀ (by norm_num)]
      norm_num
    have hnear := abs_sub_le_of_multiple hpow h (2 ^ 52)
    rw [hbegin] at hnear
    refine hnear.trans ?_
    rw [abs_of_nonpos (by linarith), abs_of_nonpos (by linarith)]
    linarith

theorem unpack_pack_of_overflow (hm : 0 < m) (hr : 972 ≤ r) :
    (Float.Model.pack (.finite s m r hm)).unpack = .infinity s := by
  have hexp : 2 ^ Format.binary64.exponentBits ≤ (r + Format.binary64.exponentBias +
      Format.binary64.mantissaBitsWithoutImplicit).toNat + 1 := by
    simp [Format.exponentBias]
    omega
  have hpack : pack Format.binary64 (.finite s m r hm) = pack Format.binary64 (.infinity s) := by
    simp only [pack]
    rw [if_pos hexp]
  have hencodes := @Encodes.infinity s
  exact (congrArg (unpack Format.binary64) (hpack.trans hencodes.pack_eq)).trans hencodes.unpack_eq

/-- The nearest multiple of a power of two, with a sign, is the rounded value. -/
theorem nearest_of_grid {k : Nat} (hv : v.isFinite = true)
    (hvalue : value v = (s.apply 1 : Int) * (k * 2 ^ t)) (h : |(k : ℚ) * 2 ^ t - x| ≤ 2 ^ (t - 1))
    (hgrid : 2 ^ (t + 52) ≤ x ∨ t = -1074) (ht : t ≤ 971) : Nearest ((s.apply 1 : Int) * x) v := by
  have hsign (b c : ℚ) : |((s.apply 1 : Int) : ℚ) * b - (s.apply 1 : Int) * c| = |b - c| := by
    rw [← mul_sub, abs_mul]
    cases s <;> simp [UnpackedFloat.Sign.apply]
  refine .finite hv ?_ ?_
  · have hhalf : (2 : ℚ) ^ (t - 1) ≤ 2 ^ (970 : Int) :=
      zpow_le_zpow_right₀ (by norm_num) (by omega)
    have hle := abs_value_le hv
    have hnear := hsign (k * 2 ^ t) x
    rw [← hvalue, abs_sub_comm] at hnear
    have htriangle := abs_sub_abs_le_abs_sub (((s.apply 1 : Int) : ℚ) * x) (value v)
    linarith
  · intro w hw
    -- the signs are taken out on both sides
    obtain ⟨w', hw', hvalue'⟩ : ∃ w' : Float, w'.isFinite = true ∧
        value w = (s.apply 1 : Int) * value w' := by
      cases s with
      | positive => exact ⟨w, hw, by simp [UnpackedFloat.Sign.apply]⟩
      | negative =>
        exact ⟨-w, by rw [isFinite_neg, hw], by simp [UnpackedFloat.Sign.apply, value_neg]⟩
    rw [hvalue, hvalue', hsign, hsign]
    exact_mod_cast abs_sub_le_of_grid (k := k) (by exact_mod_cast h) hgrid hw'

/-- A value that has been rounded up to a power of two out of range is too far out. -/
theorem overflow_le_of_grid {k : Nat} (hvalue : (m : ℚ) * 2 ^ r = k * 2 ^ t)
    (hfull : 2 ^ 52 ≤ m ∨ r = -1074) (h : |(k : ℚ) * 2 ^ t - x| ≤ 2 ^ (t - 1))
    (hgrid : 2 ^ (t + 52) ≤ x ∨ t = -1074) (hr : 972 ≤ r) : overflow ≤ x := by
  rcases le_or_gt 972 t with ht | ht
  · have hle : (2 : ℚ) ^ (1024 : Int) ≤ 2 ^ (t + 52) :=
      zpow_le_zpow_right₀ (by norm_num) (by omega)
    exact overflow_lt.le.trans (hle.trans (hgrid.resolve_right (by omega)))
  · have hhalf : (2 : ℚ) ^ (t - 1) ≤ 2 ^ (970 : Int) :=
      zpow_le_zpow_right₀ (by norm_num) (by omega)
    have htop : (2 : ℚ) ^ (1024 : Int) ≤ m * 2 ^ r := by
      have hsplit : (2 : ℚ) ^ (52 + r) = 2 ^ (52 : Int) * 2 ^ r := zpow_add₀ (by norm_num) _ _
      have hm : (2 : ℚ) ^ (52 : Int) ≤ m := by exact_mod_cast hfull.resolve_right (by omega)
      calc (2 : ℚ) ^ (1024 : Int) ≤ 2 ^ (52 + r) :=
            zpow_le_zpow_right₀ (by norm_num) (by omega)
        _ = 2 ^ (52 : Int) * 2 ^ r := hsplit
        _ ≤ m * 2 ^ r := by gcongr
    have hle := (abs_le.1 h).2
    rw [hvalue] at htop
    rw [overflow]
    generalize (2 : ℚ) ^ (970 : Int) = u at hhalf ⊢
    generalize (2 : ℚ) ^ (1024 : Int) = u' at htop ⊢
    linarith

/-- Dropping bits down to the exponent that rounding aims at leaves 53 bits, unless the exponent is
the least one. -/
theorem exists_shift_spec (h : Locates m y a)
    (he : e ≤ Format.binary64.targetExponent (totalExponent m e)) :
    ∃ em t z, shiftToTargetExponent Format.binary64 m e a = (em, t) ∧
      Locates em.mantissa z em.accuracy ∧ y * 2 ^ e = z * 2 ^ t ∧ em.mantissa < 2 ^ 53 ∧
      -1074 ≤ t ∧ (2 ^ 52 ≤ em.mantissa ∨ t = -1074) := by
  obtain ⟨k, hk⟩ : ∃ k : Nat, Format.binary64.targetExponent (totalExponent m e) = e + k :=
    ⟨(Format.binary64.targetExponent (totalExponent m e) - e).toNat, by omega⟩
  have htarget : e + k = max (m.log2 + 1 + e - 53) (-1074) := hk.symm
  have hmantissa : (ExtendedMantissa.ofMantissaAndAccuracy m a >>> k).mantissa = m / 2 ^ k := by
    rw [mantissa_shiftRight, mantissa_ofMantissaAndAccuracy]
  refine ⟨ExtendedMantissa.ofMantissaAndAccuracy m a >>> k, e + k, y / 2 ^ k, ?_,
    (locates_ofMantissaAndAccuracy h).shiftRight k, ?_, ?_, by omega, ?_⟩
  · have hsub : (e + (k : Int) - e).toNat = k := by omega
    simp only [shiftToTargetExponent, shiftToExponent, hk, hsub]
  · rw [zpow_add₀ (by norm_num), zpow_natCast]
    field_simp
  · rw [hmantissa, Nat.div_lt_iff_lt_mul (Nat.two_pow_pos k), ← Nat.pow_add]
    exact Nat.lt_log2_self.trans_le (Nat.pow_le_pow_right (by decide) (by omega))
  · rcases le_total (m.log2 + 1 + e - 53) (-1074) with hle | hle
    · exact .inr (by omega)
    · have hlog : 52 + k = m.log2 := by omega
      have hm : m ≠ 0 := by
        rintro rfl
        simp at hlog
      refine .inl ?_
      rw [hmantissa, Nat.le_div_iff_mul_le (Nat.two_pow_pos k), ← Nat.pow_add, hlog]
      exact Nat.log2_self_le hm

/-- **What is kept of a value is enough to round it**, if the mantissa has no fewer bits than
rounding needs. -/
theorem nearest_roundWithAccuracy (s : UnpackedFloat.Sign) (h : Locates m y a)
    (he : e ≤ Format.binary64.targetExponent (totalExponent m e)) :
    Nearest ((s.apply 1 : Int) * (y * 2 ^ e))
      (.ofModel (.pack (roundWithAccuracy Format.binary64 s m e a))) := by
  obtain ⟨em, t, z, hshift, hlocates, hx, hlt, ht, hfull⟩ := exists_shift_spec h he
  have hpow : (0 : ℚ) < 2 ^ t := by positivity
  have hround : |(em.roundedMantissa : ℚ) * 2 ^ t - z * 2 ^ t| ≤ 2 ^ (t - 1) := by
    rw [← sub_mul, abs_mul, abs_of_pos hpow, zpow_sub_one₀ (by norm_num), mul_comm]
    gcongr
    simpa using hlocates.abs_roundedMantissa_sub_le
  obtain ⟨hlow, hhigh⟩ := mantissa_le_roundedMantissa em
  have hgrid : 2 ^ (t + 52) ≤ z * 2 ^ t ∨ t = -1074 := by
    refine hfull.imp_left fun hfull => ?_
    have hz : (2 : ℚ) ^ (52 : Int) ≤ z := le_trans (by exact_mod_cast hfull) hlocates.le
    rw [add_comm, zpow_add₀ (by norm_num)]
    gcongr
  rw [hx, roundWithAccuracy]
  simp only [hshift]
  by_cases hzero : em.roundedMantissa = 0
  · -- only the least exponent leaves no bit
    have hleast : t = -1074 := hfull.resolve_left (by omega)
    have hagain : (shiftToTargetExponent Format.binary64 em.roundedMantissa t .exact).1.mantissa
        = 0 := by
      rw [hzero, shiftToTargetExponent, shiftToExponent, mantissa_shiftRight]
      exact Nat.zero_div _
    rw [dif_pos hagain]
    refine nearest_of_grid (k := em.roundedMantissa) ?_ ?_ hround hgrid (by omega)
    · cases s <;> decide
    · rw [value_of_zero (s := s) (by cases s <;> rfl), hzero]
      simp
  · obtain ⟨n, r, hagain, hvalue, hn, hlt, htr, hfull'⟩ := exists_shiftToTargetExponent (t := t)
      hzero (by omega) ht (hfull.imp_left (by omega))
    simp only [hagain]
    rw [dif_neg hn.ne']
    rcases le_or_gt r 971 with hr | hr
    · have hcanonical : Canonical n r := ⟨hn, hlt, by omega, hr, hfull'⟩
      refine nearest_of_grid (hcanonical.isFinite_pack s) ?_ hround hgrid (by omega)
      rw [hcanonical.value_pack, ← hvalue]
      cases s <;> simp [UnpackedFloat.Sign.apply]
    · refine .infinite s (unpack_pack_of_overflow hn (by omega)) ?_
      have hle := overflow_le_of_grid hvalue hfull' hround hgrid (by omega)
      cases s <;> simpa [UnpackedFloat.Sign.apply] using hle

theorem nearest_zero (s : UnpackedFloat.Sign) : Nearest 0 (.ofModel (.pack (.zero s))) := by
  have hvalue : value (.ofModel (.pack (.zero s))) = 0 :=
    value_of_zero (s := s) (by cases s <;> rfl)
  rw [← hvalue]
  exact nearest_value (by cases s <;> decide)

theorem nearest_round (s : UnpackedFloat.Sign) (hm : m ≠ 0) (e : Int) :
    Nearest ((s.apply m : Int) * 2 ^ e)
      (.ofModel (.pack (UnpackedFloat.round Format.binary64 s m e))) := by
  -- a larger exponent is decreased first, by zeros behind the mantissa
  obtain ⟨k, hk⟩ : ∃ k, k = (e - Format.binary64.targetExponent (totalExponent m e)).toNat :=
    ⟨_, rfl⟩
  have htotal : totalExponent (m * 2 ^ k) (e - k) = totalExponent m e := by
    rw [totalExponent, totalExponent, log2_mul_two_pow hm]
    omega
  have hx : ((s.apply m : Int) : ℚ) * 2 ^ e =
      (s.apply 1 : Int) * ((m * 2 ^ k : Nat) * 2 ^ (e - k)) := by
    rw [zpow_sub₀ (by norm_num), zpow_natCast]
    cases s <;> simp [UnpackedFloat.Sign.apply] <;> field_simp
  have hround : UnpackedFloat.round Format.binary64 s m e =
      roundWithAccuracy Format.binary64 s (m * 2 ^ k) (e - k) .exact := by
    simp only [UnpackedFloat.round, decreaseExponent, ← hk, Nat.shiftLeft_eq]
  rw [hx, hround]
  exact nearest_roundWithAccuracy s rfl (by rw [htotal]; omega)

theorem nearest_normalize (z e : Int) (s : UnpackedFloat.Sign) :
    Nearest (z * 2 ^ e) (.ofModel (.pack (UnpackedFloat.normalize Format.binary64 z e s))) := by
  rcases lt_trichotomy z 0 with hz | rfl | hz
  · have hround := nearest_round .negative (m := (-z).toNat) (by omega) e
    have happly : UnpackedFloat.Sign.negative.apply (-z).toNat = z := by
      rw [UnpackedFloat.Sign.apply]
      omega
    rw [happly] at hround
    rw [UnpackedFloat.normalize, compare_lt_iff_lt.2 hz]
    exact hround
  · rw [Int.cast_zero, zero_mul]
    exact nearest_zero s
  · have hround := nearest_round .positive (m := z.toNat) (by omega) e
    have happly : UnpackedFloat.Sign.positive.apply z.toNat = z := by
      rw [UnpackedFloat.Sign.apply]
      omega
    rw [happly] at hround
    rw [UnpackedFloat.normalize, compare_gt_iff_gt.2 hz]
    exact hround

/-! ### Operations -/

theorem value_decreaseExponent (s : UnpackedFloat.Sign) (m : Nat) (h : e ≤ q) :
    ((s.apply (decreaseExponent m q e).1 : Int) : ℚ) * 2 ^ e = (s.apply m : Int) * 2 ^ q := by
  obtain ⟨k, rfl⟩ : ∃ k : Nat, q = e + k := ⟨(q - e).toNat, by omega⟩
  have hsub : (e + (k : Int) - e).toNat = k := by omega
  rw [zpow_add₀ (by norm_num), zpow_natCast]
  simp only [decreaseExponent, hsub, Nat.shiftLeft_eq]
  cases s <;> simp [UnpackedFloat.Sign.apply] <;> ring

theorem ofModel_pack_unpack (v : Float) : .ofModel (.pack v.toModel.unpack) = v := by
  rw [pack_unpack]

/-- **Sums** are rounded. -/
theorem nearest_add (hv : v.isFinite = true) (hw : w.isFinite = true) :
    Nearest (value v + value w) (v + w) := by
  show Nearest _ (.ofModel (.pack (v.toModel.unpack.add Format.binary64 w.toModel.unpack)))
  obtain ⟨s, hv'⟩ | ⟨s, m, q, hm, hv', -⟩ := finite_cases hv <;>
    obtain ⟨t, hw'⟩ | ⟨t, n, r, hn, hw', -⟩ := finite_cases hw <;> rw [hv', hw']
  · rw [value_of_zero hv', value_of_zero hw', add_zero, UnpackedFloat.add]
    split <;> exact nearest_zero _
  · show Nearest _ (.ofModel (.pack (.finite t n r hn)))
    rw [value_of_zero hv', zero_add, ← hw', ofModel_pack_unpack]
    exact nearest_value hw
  · show Nearest _ (.ofModel (.pack (.finite s m q hm)))
    rw [value_of_zero hw', add_zero, ← hv', ofModel_pack_unpack]
    exact nearest_value hv
  · have hx : value v + value w = ((s.apply (decreaseExponent m q (min q r)).1 +
        t.apply (decreaseExponent n r (min q r)).1 : Int) : ℚ) * 2 ^ min q r := by
      rw [value_of_finite hv', value_of_finite hw', Int.cast_add, add_mul,
        value_decreaseExponent s m (min_le_left q r), value_decreaseExponent t n (min_le_right q r)]
    rw [hx]
    exact nearest_normalize _ _ _

/-- **Differences** are rounded. -/
theorem nearest_sub (hv : v.isFinite = true) (hw : w.isFinite = true) :
    Nearest (value v - value w) (v - w) := by
  show Nearest _ (.ofModel (.pack (v.toModel.unpack.sub Format.binary64 w.toModel.unpack)))
  obtain ⟨s, hv'⟩ | ⟨s, m, q, hm, hv', -⟩ := finite_cases hv <;>
    obtain ⟨t, hw'⟩ | ⟨t, n, r, hn, hw', -⟩ := finite_cases hw <;> rw [hv', hw']
  · rw [value_of_zero hv', value_of_zero hw', sub_zero, UnpackedFloat.sub]
    split <;> exact nearest_zero _
  · have hneg : (-w).toModel.unpack = .finite (-t) n r hn := by
      show (-w.toModel).unpack = _
      rw [unpack_neg, hw']
      rfl
    show Nearest _ (.ofModel (.pack (.finite (-t) n r hn)))
    rw [value_of_zero hv', zero_sub, ← value_neg, ← hneg, ofModel_pack_unpack]
    exact nearest_value (by rw [isFinite_neg, hw])
  · show Nearest _ (.ofModel (.pack (.finite s m q hm)))
    rw [value_of_zero hw', sub_zero, ← hv', ofModel_pack_unpack]
    exact nearest_value hv
  · have hx : value v - value w = ((s.apply (decreaseExponent m q (min q r)).1 -
        t.apply (decreaseExponent n r (min q r)).1 : Int) : ℚ) * 2 ^ min q r := by
      rw [value_of_finite hv', value_of_finite hw', Int.cast_sub, sub_mul,
        value_decreaseExponent s m (min_le_left q r), value_decreaseExponent t n (min_le_right q r)]
    rw [hx]
    exact nearest_normalize _ _ _

/-- The product of two mantissas has bits enough. -/
theorem Canonical.le_targetExponent_mul (h : Canonical m q) (h' : Canonical n r) :
    q + r ≤ Format.binary64.targetExponent (totalExponent (m * n) (q + r)) := by
  have hmn : m * n ≠ 0 := (Nat.mul_pos h.pos h'.pos).ne'
  rw [Format.targetExponent, totalExponent]
  simp only [Format.mantissaBits, Format.minExponent]
  rcases h.full with hm | hq
  · have hlog : 52 ≤ (m * n).log2 :=
      (Nat.le_log2 hmn).2 (hm.trans (Nat.le_mul_of_pos_right m h'.pos))
    omega
  · rcases h'.full with hn | hr
    · have hlog : 52 ≤ (m * n).log2 :=
        (Nat.le_log2 hmn).2 (hn.trans (Nat.le_mul_of_pos_left n h.pos))
      omega
    · omega

/-- **Products** are rounded. -/
theorem nearest_mul (hv : v.isFinite = true) (hw : w.isFinite = true) :
    Nearest (value v * value w) (v * w) := by
  show Nearest _ (.ofModel (.pack (v.toModel.unpack.mul Format.binary64 w.toModel.unpack)))
  obtain ⟨s, hv'⟩ | ⟨s, m, q, hm, hv', hmq⟩ := finite_cases hv <;>
    obtain ⟨t, hw'⟩ | ⟨t, n, r, hn, hw', hnr⟩ := finite_cases hw <;> rw [hv', hw']
  · rw [value_of_zero hv', zero_mul]
    exact nearest_zero _
  · rw [value_of_zero hv', zero_mul]
    exact nearest_zero _
  · rw [value_of_zero hw', mul_zero]
    exact nearest_zero _
  · have hx : value v * value w = ((s * t).apply 1 : Int) * ((m * n : Nat) * 2 ^ (q + r)) := by
      rw [value_of_finite hv', value_of_finite hw', apply_eq_mul s, apply_eq_mul t, apply_mul,
        zpow_add₀ (by norm_num)]
      push_cast
      ring
    rw [hx]
    exact nearest_roundWithAccuracy _ rfl (hmq.le_targetExponent_mul hnr)

/-- The division is continued until the quotient has bits enough. -/
theorem divCore_spec (hm : 0 < m) (hn : 0 < n) (q r : Int) :
    ∃ k e y a, divCore Format.binary64 m q n r = (k, e, a) ∧ Locates k y a ∧
      (m : ℚ) * 2 ^ q / (n * 2 ^ r) = y * 2 ^ e ∧
      e ≤ Format.binary64.targetExponent (totalExponent k e) := by
  have hn' : (n : ℚ) ≠ 0 := by exact_mod_cast hn.ne'
  obtain ⟨c, hc⟩ : ∃ c : Nat, min (q - r)
      (Format.binary64.targetExponent (totalExponent m q - totalExponent n r)) = q - r - c :=
    ⟨(q - r - min (q - r)
      (Format.binary64.targetExponent (totalExponent m q - totalExponent n r))).toNat, by omega⟩
  have htarget : q - r - c = min (q - r) (max (m.log2 + 1 + q - (n.log2 + 1 + r) - 53) (-1074)) :=
    hc.symm
  have hsub : (q - r - (q - r - (c : Int))).toNat = c := by omega
  refine ⟨m * 2 ^ c / n, q - r - c, _, accuracyOfFraction (m * 2 ^ c % n) n, ?_,
    locates_accuracyOfFraction (Nat.mod_lt _ hn) _, ?_, ?_⟩
  · simp only [divCore, hc, hsub, Nat.shiftLeft_eq]
  · have hdiv : ((m * 2 ^ c / n : Nat) : ℚ) + (m * 2 ^ c % n : Nat) / n = m * 2 ^ c / n := by
      rw [eq_div_iff hn', add_mul, div_mul_cancel₀ _ hn']
      exact_mod_cast Nat.div_add_mod' (m * 2 ^ c) n
    rw [hdiv, zpow_sub₀ (by norm_num), zpow_sub₀ (by norm_num), zpow_natCast]
    field_simp
  · rw [Format.targetExponent, totalExponent]
    simp only [Format.mantissaBits, Format.minExponent]
    rcases le_or_gt (q - r - c) (-1074) with hle | hlt
    · omega
    · have hbits : 2 ^ 52 ≤ m * 2 ^ c / n := by
        rw [Nat.le_div_iff_mul_le hn]
        calc 2 ^ 52 * n ≤ 2 ^ 52 * 2 ^ (n.log2 + 1) :=
              Nat.mul_le_mul_left _ Nat.lt_log2_self.le
          _ ≤ 2 ^ m.log2 * 2 ^ c := by
            rw [← Nat.pow_add, ← Nat.pow_add]
            exact Nat.pow_le_pow_right (by decide) (by omega)
          _ ≤ m * 2 ^ c := Nat.mul_le_mul_right _ (Nat.log2_self_le hm.ne')
      have hlog : 52 ≤ (m * 2 ^ c / n).log2 := (Nat.le_log2 (by omega)).2 hbits
      omega

/-- **Quotients** are rounded. -/
theorem nearest_div (hv : v.isFinite = true) (hw : w.isFinite = true) (hne : value w ≠ 0) :
    Nearest (value v / value w) (v / w) := by
  show Nearest _ (.ofModel (.pack (v.toModel.unpack.div Format.binary64 w.toModel.unpack)))
  obtain ⟨t, hw'⟩ | ⟨t, n, r, hn, hw', -⟩ := finite_cases hw
  · exact absurd (value_of_zero hw') hne
  · obtain ⟨s, hv'⟩ | ⟨s, m, q, hm, hv', -⟩ := finite_cases hv <;> rw [hv', hw']
    · rw [value_of_zero hv', zero_div]
      exact nearest_zero _
    · obtain ⟨k, e, y, a, hcore, hlocates, hvalue, hle⟩ := divCore_spec hm hn q r
      have hx : value v / value w = ((s / t).apply 1 : Int) * (y * 2 ^ e) := by
        rw [value_of_finite hv', value_of_finite hw', apply_eq_mul s, apply_eq_mul t, apply_div,
          ← hvalue, Int.cast_mul, Int.cast_mul, mul_assoc, mul_assoc, mul_div_mul_comm]
        rfl
      rw [hx, UnpackedFloat.div]
      simp only [hcore]
      exact nearest_roundWithAccuracy _ hlocates hle

/-! ### The errors of operations -/

theorem error_add (hv : v.isFinite = true) (hw : w.isFinite = true)
    (hvw : (v + w).isFinite = true) :
    |value (v + w) - (value v + value w)| ≤ 2 ^ (-53 : Int) * |value v + value w| := by
  obtain ⟨k, hk⟩ := exists_multiple hv (.inl (le_refl (-1074)))
  obtain ⟨z, hz⟩ := exists_multiple hw (.inl (le_refl (-1074)))
  refine (nearest_add hv hw).error_of_multiple hvw (z := k + z) ?_
  rw [hk, hz, Int.cast_add, add_mul]

theorem error_sub (hv : v.isFinite = true) (hw : w.isFinite = true)
    (hvw : (v - w).isFinite = true) :
    |value (v - w) - (value v - value w)| ≤ 2 ^ (-53 : Int) * |value v - value w| := by
  obtain ⟨k, hk⟩ := exists_multiple hv (.inl (le_refl (-1074)))
  obtain ⟨z, hz⟩ := exists_multiple hw (.inl (le_refl (-1074)))
  refine (nearest_sub hv hw).error_of_multiple hvw (z := k - z) ?_
  rw [hk, hz, Int.cast_sub, sub_mul]

/-- The product of a whole number does not lose its last bits. -/
theorem error_mul_of_whole {k : Int} (hv : v.isFinite = true) (hw : w.isFinite = true)
    (hvw : (v * w).isFinite = true) (hk : value v = k) :
    |value (v * w) - value v * value w| ≤ 2 ^ (-53 : Int) * |value v * value w| := by
  obtain ⟨z, hz⟩ := exists_multiple hw (.inl (le_refl (-1074)))
  refine (nearest_mul hv hw).error_of_multiple hvw (z := k * z) ?_
  rw [hk, hz, Int.cast_mul, mul_assoc]

/-! ### Infinite operands -/

theorem unpack_pack_infinity (s : UnpackedFloat.Sign) :
    (Float.Model.pack (.infinity s)).unpack = .infinity s := by
  cases s <;> rfl

theorem unpack_add_of_infinity (hv : v.isFinite = true) (hw : w.toModel.unpack = .infinity s) :
    (v + w).toModel.unpack = .infinity s := by
  show (Float.Model.pack (v.toModel.unpack.add Format.binary64 w.toModel.unpack)).unpack = _
  rw [hw]
  obtain ⟨t, hv⟩ | ⟨t, m, q, hm, hv, -⟩ := finite_cases hv <;> rw [hv] <;>
    exact unpack_pack_infinity s

theorem not_isFinite_pack {u : UnpackedFloat} (hu : u = .notANumber ∨ ∃ s, u = .infinity s) :
    (Float.Model.pack u).unpack.isFinite = false := by
  obtain rfl | ⟨s, rfl⟩ := hu
  · decide
  · cases s <;> decide

/-- A sum with a finite summand is finite only if the other one is. -/
theorem isFinite_of_add (hvw : (v + w).isFinite = true) (hw : w.isFinite = true) :
    v.isFinite = true := by
  rw [← Bool.not_eq_false]
  intro hv
  rw [← Bool.not_eq_false] at hvw
  refine hvw (not_isFinite_pack (u := v.toModel.unpack.add Format.binary64 w.toModel.unpack) ?_)
  have hv : v.toModel.unpack.isFinite = false := hv
  cases hu : v.toModel.unpack with
  | notANumber => exact .inl rfl
  | infinity s =>
    obtain ⟨t, hw⟩ | ⟨t, m, q, hm, hw, -⟩ := finite_cases hw <;> rw [hw] <;> exact .inr ⟨s, rfl⟩
  | zero s | finite s m q hm => rw [hu] at hv; cases hv

/-- A quotient by a finite number other than zero is finite only if the dividend is. -/
theorem isFinite_of_div (hvw : (v / w).isFinite = true) (hw : w.isFinite = true)
    (hne : value w ≠ 0) : v.isFinite = true := by
  rw [← Bool.not_eq_false]
  intro hv
  rw [← Bool.not_eq_false] at hvw
  refine hvw (not_isFinite_pack (u := v.toModel.unpack.div Format.binary64 w.toModel.unpack) ?_)
  have hv : v.toModel.unpack.isFinite = false := hv
  obtain ⟨t, hw⟩ | ⟨t, m, q, hm, hw, -⟩ := finite_cases hw
  · exact absurd (value_of_zero hw) hne
  · rw [hw]
    cases hu : v.toModel.unpack with
    | notANumber => exact .inl rfl
    | infinity s => exact .inr ⟨s / t, rfl⟩
    | zero s | finite s m q hm => rw [hu] at hv; cases hv

end Number

end Formula
