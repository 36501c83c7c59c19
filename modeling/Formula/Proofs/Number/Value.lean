import Mathlib
import Formula.Proofs.Number.Rounding

/-!
# The value of a number

A finite `Float` is `±m * 2 ^ q`, a rational number.  Finite numbers are compared as their values
are: of two mantissas that use all their bits, the one with the larger exponent is larger.

* `Number.value` is the value of a number.
* `Number.Canonical.lt_of_lt`: a larger exponent means a larger number.
* **`Number.lt_iff`** and **`Number.le_iff`**: finite numbers are compared as their values are.
* **`Number.value_ofInt`**: whole numbers of at most 53 bits are exact.
* `Number.toNat_toUInt64`: a finite number, made a word of 64 bits, is its value rounded down.
* `Number.isNaN_sub`, `Number.isNaN_div` and `Number.isNaN_add`: where arithmetic leads to NaN.
-/

namespace Formula

namespace Number

open Float.Model (Format UnpackedFloat totalExponent)
open Float.Model.UnpackedFloat

/-- The value of a finite number.  What is not finite counts as zero. -/
def value (v : Float) : ℚ :=
  match v.toModel.unpack with
  | .finite s m q _ => s.apply m * 2 ^ q
  | _ => 0

variable {m n : Nat} {q r : Int} {v w : Float}

theorem value_of_zero {s : UnpackedFloat.Sign} (h : v.toModel.unpack = .zero s) :
    value v = 0 := by
  rw [value, h]

theorem value_of_finite {s : UnpackedFloat.Sign} {hm : 0 < m}
    (h : v.toModel.unpack = .finite s m q hm) : value v = s.apply m * 2 ^ q := by
  rw [value, h]

/-- A finite number is zero, or has a mantissa and an exponent. -/
theorem finite_cases (h : v.isFinite = true) :
    (∃ s, v.toModel.unpack = .zero s) ∨
      ∃ s m q hm, v.toModel.unpack = .finite s m q hm ∧ Canonical m q := by
  have h : v.toModel.unpack.isFinite = true := h
  cases hv : v.toModel.unpack with
  | notANumber | infinity s => simp [hv, UnpackedFloat.isFinite] at h
  | zero s => exact .inl ⟨s, rfl⟩
  | finite s m q hm => exact .inr ⟨s, m, q, hm, rfl, canonical_of_unpack hv⟩

/-! ### Comparing numbers -/

/-- A larger exponent means a larger number, whatever the mantissas. -/
theorem Canonical.lt_of_lt (h : Canonical m q) (h' : Canonical n r) (hlt : q < r) :
    (m : ℚ) * 2 ^ q < n * 2 ^ r := by
  have hm : (m : ℚ) < 2 ^ 53 := by exact_mod_cast h.lt
  have hn : (2 : ℚ) ^ 52 ≤ n := by
    have hle := h.le
    exact_mod_cast h'.full.resolve_right (by omega)
  have hpos : (0 : ℚ) < 2 ^ q := by positivity
  calc (m : ℚ) * 2 ^ q < 2 ^ 53 * 2 ^ q := mul_lt_mul_of_pos_right hm hpos
    _ = 2 ^ 52 * 2 ^ (q + 1) := by rw [zpow_add_one₀ (by norm_num)]; ring
    _ ≤ 2 ^ 52 * 2 ^ r := by gcongr <;> norm_num; omega
    _ ≤ n * 2 ^ r := by gcongr

/-- Numbers in range are compared by their exponents first. -/
theorem Canonical.compare_eq (h : Canonical m q) (h' : Canonical n r) :
    (compare q r).then (compare m n) = compare ((m : ℚ) * 2 ^ q) (n * 2 ^ r) := by
  rcases lt_trichotomy q r with hlt | rfl | hlt
  · rw [compare_lt_iff_lt.2 hlt, compare_lt_iff_lt.2 (h.lt_of_lt h' hlt)]
    rfl
  · have hpos : (0 : ℚ) < 2 ^ q := by positivity
    rw [compare_eq_iff_eq.2 rfl]
    rcases lt_trichotomy m n with hmn | rfl | hmn
    · rw [Ordering.then, compare_lt_iff_lt.2 hmn, eq_comm, compare_lt_iff_lt]
      exact mul_lt_mul_of_pos_right (by exact_mod_cast hmn) hpos
    · rw [Ordering.then, compare_eq_iff_eq.2 rfl, compare_eq_iff_eq.2 rfl]
    · rw [Ordering.then, compare_gt_iff_gt.2 hmn, eq_comm, compare_gt_iff_gt]
      exact mul_lt_mul_of_pos_right (by exact_mod_cast hmn) hpos
  · rw [compare_gt_iff_gt.2 hlt, compare_gt_iff_gt.2 (h'.lt_of_lt h hlt)]
    rfl

theorem compare_neg (x y : ℚ) : compare (-x) (-y) = (compare x y).swap := by
  rcases lt_trichotomy x y with h | rfl | h
  · rw [compare_lt_iff_lt.2 h, compare_gt_iff_gt.2 (neg_lt_neg h)]
    rfl
  · rw [compare_eq_iff_eq.2 rfl, compare_eq_iff_eq.2 rfl]
    rfl
  · rw [compare_gt_iff_gt.2 h, compare_lt_iff_lt.2 (neg_lt_neg h)]
    rfl

/-- **Finite numbers are compared as their values are.** -/
theorem compare_unpack (hv : v.isFinite = true) (hw : w.isFinite = true) :
    v.toModel.unpack.compare w.toModel.unpack = some (compare (value v) (value w)) := by
  have hpos {m : Nat} (hm : 0 < m) (q : Int) : (0 : ℚ) < m * 2 ^ q := by positivity
  have hneg {m : Nat} (hm : 0 < m) (q : Int) : -((m : ℚ) * 2 ^ q) < 0 := by
    rw [neg_lt_zero]
    exact hpos hm q
  obtain ⟨s, hv⟩ | ⟨s, m, q, hm, hv, hmq⟩ := finite_cases hv <;>
    obtain ⟨t, hw⟩ | ⟨t, n, r, hn, hw, hnr⟩ := finite_cases hw
  · rw [value_of_zero hv, value_of_zero hw, hv, hw, compare_eq_iff_eq.2 rfl]
    rfl
  · rw [value_of_zero hv, value_of_finite hw, hv, hw]
    cases t with
    | positive => exact congrArg some (compare_lt_iff_lt.2 (hpos hn r)).symm
    | negative =>
      simp only [UnpackedFloat.Sign.apply, Int.cast_neg, Int.cast_natCast, neg_mul]
      exact congrArg some (compare_gt_iff_gt.2 (hneg hn r)).symm
  · rw [value_of_finite hv, value_of_zero hw, hv, hw]
    cases s with
    | positive => exact congrArg some (compare_gt_iff_gt.2 (hpos hm q)).symm
    | negative =>
      simp only [UnpackedFloat.Sign.apply, Int.cast_neg, Int.cast_natCast, neg_mul]
      exact congrArg some (compare_lt_iff_lt.2 (hneg hm q)).symm
  · rw [value_of_finite hv, value_of_finite hw, hv, hw]
    cases s <;> cases t <;>
      simp only [UnpackedFloat.Sign.apply, Int.cast_neg, Int.cast_natCast, neg_mul]
    · rw [compare_neg, ← hmq.compare_eq hnr]
      rfl
    · exact congrArg some (compare_lt_iff_lt.2 ((hneg hm q).trans (hpos hn r))).symm
    · exact congrArg some (compare_gt_iff_gt.2 ((hneg hn r).trans (hpos hm q))).symm
    · exact congrArg some (hmq.compare_eq hnr)

/-- A finite number is less than another if its value is. -/
theorem lt_iff (hv : v.isFinite = true) (hw : w.isFinite = true) :
    v < w ↔ value v < value w := by
  show decide (v.toModel < w.toModel) = true ↔ _
  rw [decide_eq_true_iff]
  show (v.toModel.unpack.compare w.toModel.unpack == some .lt) = true ↔ _
  rw [compare_unpack hv hw, beq_iff_eq, Option.some.injEq, compare_lt_iff_lt]

/-- A finite number is at most another if its value is. -/
theorem le_iff (hv : v.isFinite = true) (hw : w.isFinite = true) :
    v ≤ w ↔ value v ≤ value w := by
  show decide (v.toModel ≤ w.toModel) = true ↔ _
  rw [decide_eq_true_iff]
  show Option.any (·.isLE) (v.toModel.unpack.compare w.toModel.unpack) = true ↔ _
  rw [compare_unpack hv hw, Option.any_some, ← Ordering.ne_gt_iff_isLE]
  exact compare_le_iff_le

/-! ### Whole numbers -/

/-- Parts that fit are those of a `Float`. -/
theorem Canonical.exists_encodes (h : Canonical m q) (s : UnpackedFloat.Sign) :
    ∃ E F, Encodes s E F (.finite s m q h.pos) := by
  have hlt := h.lt
  have hle := h.le
  have hge := h.ge
  by_cases hm : m < 2 ^ 52
  · -- without the implicit bit, the exponent is the least one
    obtain rfl : q = -1074 := h.full.resolve_left (by omega)
    have hF : (BitVec.ofNat 52 m).toNat = m := BitVec.toNat_ofNat .. ▸ Nat.mod_eq_of_lt hm
    refine ⟨0#11, BitVec.ofNat 52 m, ?_⟩
    convert Encodes.subnormal (s := s) (F := BitVec.ofNat 52 m) (hF.symm ▸ h.pos)
    exact hF.symm
  · have hE : (BitVec.ofNat 11 (q + 1075).toNat).toNat = (q + 1075).toNat := by
      rw [BitVec.toNat_ofNat, Nat.mod_eq_of_lt (by omega)]
    have hF : (BitVec.ofNat 52 (m - 2 ^ 52)).toNat = m - 2 ^ 52 := by
      rw [BitVec.toNat_ofNat, Nat.mod_eq_of_lt (by omega)]
    refine ⟨BitVec.ofNat 11 (q + 1075).toNat, BitVec.ofNat 52 (m - 2 ^ 52), ?_⟩
    convert Encodes.normal (s := s) (E := BitVec.ofNat 11 (q + 1075).toNat)
      (F := BitVec.ofNat 52 (m - 2 ^ 52)) (by omega) (by omega) using 2
    · omega
    · omega

theorem Canonical.unpack_pack (h : Canonical m q) (s : UnpackedFloat.Sign) :
    (Float.Model.pack (.finite s m q h.pos)).unpack = .finite s m q h.pos := by
  obtain ⟨E, F, henc⟩ := h.exists_encodes s
  exact (congrArg (unpack Format.binary64) henc.pack_eq).trans henc.unpack_eq

/-- A whole number of at most 53 bits has the mantissa and the exponent of a `Float`. -/
theorem canonical_of_whole (hn : n ≠ 0) (hlt : n < 2 ^ 53) :
    Canonical (n * 2 ^ (52 - n.log2)) (n.log2 - 52) := by
  have hlog : n.log2 < 53 := (Nat.log2_lt hn).2 hlt
  have hlow : 2 ^ n.log2 ≤ n := (Nat.le_log2 hn).1 (Nat.le_refl _)
  have hhigh : n < 2 ^ (n.log2 + 1) := (Nat.log2_lt hn).1 (Nat.lt_succ_self _)
  have hpow (k : Nat) : 2 ^ (n.log2 + k) * 2 ^ (52 - n.log2) = 2 ^ (52 + k) := by
    rw [← Nat.pow_add]
    congr 1
    omega
  have hpos : 0 < 2 ^ (52 - n.log2) := Nat.two_pow_pos _
  refine ⟨Nat.mul_pos (Nat.pos_of_ne_zero hn) hpos, ?_, by omega, by omega, .inl ?_⟩
  · rw [← hpow 1]
    exact Nat.mul_lt_mul_of_pos_right hhigh hpos
  · rw [← hpow 0]
    exact Nat.mul_le_mul_right _ hlow

/-- A whole number of at most 53 bits is exact. -/
theorem round_whole (hn : n ≠ 0) (hlt : n < 2 ^ 53) (s : UnpackedFloat.Sign) :
    UnpackedFloat.round Format.binary64 s n 0 = .finite s (n * 2 ^ (52 - n.log2)) (n.log2 - 52)
      (canonical_of_whole hn hlt).pos := by
  have h := canonical_of_whole hn hlt
  have hlog : n.log2 < 53 := (Nat.log2_lt hn).2 hlt
  have hexp : totalExponent n 0 = totalExponent (n * 2 ^ (52 - n.log2)) (n.log2 - 52) := by
    rw [totalExponent, totalExponent, log2_mul_two_pow hn]
    omega
  have htarget : Format.binary64.targetExponent (totalExponent n 0) = n.log2 - 52 := by
    have h0 := h.targetExponent_eq 0
    rwa [Nat.pow_zero, Nat.mul_one, Nat.cast_zero, sub_zero, ← hexp] at h0
  have hshift : (0 - ((n.log2 : Int) - 52)).toNat = 52 - n.log2 := by omega
  have hcast : (0 : Int) - (52 - n.log2 : Nat) = n.log2 - 52 := by omega
  have hround := h.roundWithAccuracy_eq s 0
  rw [Nat.pow_zero, Nat.mul_one, Nat.cast_zero, sub_zero] at hround
  simp only [UnpackedFloat.round, htarget, decreaseExponent, hshift, Nat.shiftLeft_eq, hcast,
    hround]

/-- The value of the number with these parts. -/
theorem Canonical.value_pack (h : Canonical m q) (s : UnpackedFloat.Sign) :
    value (.ofModel (.pack (.finite s m q h.pos))) = s.apply m * 2 ^ q :=
  value_of_finite (h.unpack_pack s)

theorem Canonical.isFinite_pack (h : Canonical m q) (s : UnpackedFloat.Sign) :
    (Float.ofModel (.pack (.finite s m q h.pos))).isFinite = true := by
  show (Float.Model.pack (.finite s m q h.pos)).unpack.isFinite = true
  rw [h.unpack_pack]
  rfl

theorem ofInt_apply (hn : n ≠ 0) (s : UnpackedFloat.Sign) :
    UnpackedFloat.ofInt Format.binary64 (s.apply n) =
      UnpackedFloat.round Format.binary64 s n 0 := by
  unfold UnpackedFloat.ofInt UnpackedFloat.normalize
  cases s with
  | positive =>
    rw [UnpackedFloat.Sign.apply, compare_gt_iff_gt.2 (by omega)]
    rfl
  | negative =>
    rw [UnpackedFloat.Sign.apply, compare_lt_iff_lt.2 (by omega)]
    simp only [neg_neg, Int.toNat_natCast]

/-- **Whole numbers of at most 53 bits are exact.** -/
theorem value_ofInt {z : Int} (h : z.natAbs < 2 ^ 53) :
    (Float.ofModel (.ofInt z)).isFinite = true ∧ value (.ofModel (.ofInt z)) = z := by
  by_cases hz : z.natAbs = 0
  · obtain rfl : z = 0 := Int.natAbs_eq_zero.1 hz
    exact ⟨by decide, by rw [value_of_zero (s := .positive) rfl, Int.cast_zero]⟩
  · obtain ⟨s, hs⟩ : ∃ s : UnpackedFloat.Sign, s.apply z.natAbs = z := by
      rcases z.natAbs_eq with hpos | hneg
      · exact ⟨.positive, hpos.symm⟩
      · exact ⟨.negative, hneg.symm⟩
    generalize z.natAbs = n at h hz hs
    subst hs
    -- the mantissa is `n`, shifted to the left as far as it goes
    have hcanonical := canonical_of_whole hz h
    have hpack : Float.Model.ofInt (s.apply n) =
        .pack (.finite s (n * 2 ^ (52 - n.log2)) (n.log2 - 52) hcanonical.pos) := by
      rw [Float.Model.ofInt, ofInt_apply hz, round_whole hz h]
    have hlog : n.log2 < 53 := (Nat.log2_lt hz).2 h
    have hexp : (2 : ℚ) ^ (52 - n.log2) * 2 ^ ((n.log2 : Int) - 52) = 1 := by
      rw [← zpow_natCast, ← zpow_add₀ (by norm_num), Nat.cast_sub (by omega), Nat.cast_ofNat,
        sub_add_sub_cancel', sub_self, zpow_zero]
    have hvalue : (n : ℚ) * 2 ^ (52 - n.log2) * 2 ^ ((n.log2 : Int) - 52) = n := by
      rw [mul_assoc, hexp, mul_one]
    rw [hpack]
    refine ⟨hcanonical.isFinite_pack s, ?_⟩
    rw [hcanonical.value_pack]
    cases s with
    | positive =>
      simp only [UnpackedFloat.Sign.apply]
      push_cast
      exact hvalue
    | negative =>
      simp only [UnpackedFloat.Sign.apply]
      push_cast
      rw [neg_mul, hvalue]

/-- A word of at most 53 bits is exact. -/
theorem value_toFloat (hn : n < 2 ^ 53) :
    n.toUInt64.toFloat.isFinite = true ∧ value n.toUInt64.toFloat = n := by
  have hword : n.toUInt64.toNat = n := UInt64.toNat_ofNat_of_lt' (hn.trans (by decide))
  have h := value_ofInt (z := n.toUInt64.toNat) (by rw [hword]; exact hn)
  refine ⟨h.1, h.2.trans ?_⟩
  rw [hword, Int.cast_natCast]

/-! ### Words -/

theorem mantissa_shiftRight (em : ExtendedMantissa) (k : Nat) :
    (em >>> k).mantissa = em.mantissa / 2 ^ k := by
  induction k with
  | zero => exact (Nat.div_one _).symm
  | succ k ih =>
    show (em >>> k).mantissa / 2 = _
    rw [ih, Nat.div_div_eq_div_mul, Nat.pow_succ]

/-- The number `m * 2 ^ q` is made an integer by dropping what is behind the point. -/
theorem roundToInt_eq (s : UnpackedFloat.Sign) (m : Nat) (q : Int) :
    roundToInt s m q = s.apply ⌊(m : ℚ) * 2 ^ q⌋ := by
  have hshift : (0 - (q - ((q - 0).toNat : Int))).toNat = (-q).toNat := by omega
  have hfraction : (m : ℚ) * 2 ^ q =
      ((m <<< (q - 0).toNat : Nat) : ℚ) / ((2 ^ (-q).toNat : Nat) : ℚ) := by
    obtain ⟨k, rfl | rfl⟩ := q.eq_nat_or_neg
    · simp [Nat.shiftLeft_eq]
    · simp [Nat.shiftLeft_eq, div_eq_mul_inv]
  rw [hfraction, Rat.floor_natCast_div_natCast]
  simp only [roundToInt, decreaseExponent, shiftToExponent, ExtendedMantissa.ofMantissaAndAccuracy,
    mantissa_shiftRight, hshift, Int.natCast_ediv]

/-- **A number is made a word by dropping what is behind the point.**  What is negative becomes
zero. -/
theorem toNat_toUInt64 (hv : v.isFinite = true) (hlt : value v < 2 ^ 64) :
    v.toUInt64.toNat = ⌊value v⌋.toNat := by
  have hword : (v.toModel.unpack.toInt 0 (UInt64.size - 1)).toNat = ⌊value v⌋.toNat := by
    obtain ⟨s, hv⟩ | ⟨s, m, q, hm, hv, -⟩ := finite_cases hv
    · rw [value_of_zero hv, hv, Int.floor_zero]
      rfl
    · have hpos : (0 : ℚ) ≤ m * 2 ^ q := by positivity
      rw [value_of_finite hv, hv, UnpackedFloat.toInt, roundToInt_eq]
      cases s with
      | positive => rfl
      | negative =>
        simp only [UnpackedFloat.Sign.apply, Int.cast_neg, Int.cast_natCast, neg_mul]
        rw [Int.toNat_of_nonpos (neg_nonpos.2 (Int.floor_nonneg.2 hpos)), eq_comm,
          Int.toNat_eq_zero]
        exact Int.floor_nonpos (neg_nonpos.2 hpos)
  have hsize : ⌊value v⌋.toNat < UInt64.size := by
    have hfloor : ⌊value v⌋ < 2 ^ 64 := Int.floor_lt.2 (by exact_mod_cast hlt)
    have hsize : UInt64.size = 2 ^ 64 := rfl
    omega
  show (UInt64.ofNatClamp (v.toModel.unpack.toInt 0 (UInt64.size - 1)).toNat).toNat = _
  rw [hword, UInt64.ofNatClamp, dif_pos hsize, UInt64.toNat_ofNatLT]

/-! ### What is not a number -/

/-- Only NaN has no sign. -/
theorem isNaN_eq_false_iff : v.isNaN = false ↔ signOf? v.toModel.unpack ≠ none := by
  show v.toModel.unpack.isNaN = false ↔ _
  cases v.toModel.unpack <;> simp [UnpackedFloat.isNaN, signOf?]

theorem isFinite_eq_false_iff : v.isFinite = false ↔ v.isNaN = true ∨ v.isInf = true := by
  show v.toModel.unpack.isFinite = false ↔
    v.toModel.unpack.isNaN = true ∨ v.toModel.unpack.isInf = true
  cases v.toModel.unpack <;>
    simp [UnpackedFloat.isFinite, UnpackedFloat.isNaN, UnpackedFloat.isInf]

theorem signOf?_normalize (m q : Int) (s : UnpackedFloat.Sign) :
    signOf? (UnpackedFloat.normalize Format.binary64 m q s) ≠ none := by
  unfold UnpackedFloat.normalize UnpackedFloat.round
  split
  · rw [signOf?_roundWithAccuracy]
    exact Option.some_ne_none _
  · exact Option.some_ne_none s
  · rw [signOf?_roundWithAccuracy]
    exact Option.some_ne_none _

/-- The difference of finite numbers is not NaN. -/
theorem isNaN_sub (hv : v.isFinite = true) (hw : w.isFinite = true) : (v - w).isNaN = false := by
  rw [isNaN_eq_false_iff]
  show signOf? (Float.Model.pack (v.toModel.unpack.sub Format.binary64 w.toModel.unpack)).unpack ≠ _
  rw [signOf?_unpack_pack]
  obtain ⟨s, hv⟩ | ⟨s, m, q, hm, hv, -⟩ := finite_cases hv <;>
    obtain ⟨t, hw⟩ | ⟨t, n, r, hn, hw, -⟩ := finite_cases hw <;> rw [hv, hw]
  · cases s <;> cases t <;> exact Option.some_ne_none _
  · exact Option.some_ne_none _
  · exact Option.some_ne_none _
  · exact signOf?_normalize _ _ _

/-- The quotient of what is not NaN by a finite number other than zero is not NaN. -/
theorem isNaN_div (hv : v.isNaN = false) (hw : w.isFinite = true) (hne : value w ≠ 0) :
    (v / w).isNaN = false := by
  rw [isNaN_eq_false_iff] at hv ⊢
  show signOf? (Float.Model.pack (v.toModel.unpack.div Format.binary64 w.toModel.unpack)).unpack ≠ _
  rw [signOf?_unpack_pack]
  obtain ⟨t, hw⟩ | ⟨t, n, r, hn, hw, -⟩ := finite_cases hw
  · exact absurd (value_of_zero hw) hne
  · rw [hw]
    cases hv' : v.toModel.unpack with
    | notANumber => simp [hv', signOf?] at hv
    | infinity s | zero s => exact Option.some_ne_none _
    | finite s m q hm =>
      rw [UnpackedFloat.div, signOf?_roundWithAccuracy]
      exact Option.some_ne_none _

/-- The sum of what is not NaN and a finite number is not NaN. -/
theorem isNaN_add (hv : v.isNaN = false) (hw : w.isFinite = true) : (v + w).isNaN = false := by
  rw [isNaN_eq_false_iff] at hv ⊢
  show signOf? (Float.Model.pack (v.toModel.unpack.add Format.binary64 w.toModel.unpack)).unpack ≠ _
  rw [signOf?_unpack_pack]
  cases hv' : v.toModel.unpack with
  | notANumber => exact absurd (by rw [hv', signOf?]) hv
  | infinity s =>
    obtain ⟨t, hw⟩ | ⟨t, n, r, hn, hw, -⟩ := finite_cases hw <;> rw [hw] <;>
      exact Option.some_ne_none s
  | zero s =>
    obtain ⟨t, hw⟩ | ⟨t, n, r, hn, hw, -⟩ := finite_cases hw <;> rw [hw]
    · cases s <;> cases t <;> exact Option.some_ne_none _
    · exact Option.some_ne_none t
  | finite s m q hm =>
    obtain ⟨t, hw⟩ | ⟨t, n, r, hn, hw, -⟩ := finite_cases hw <;> rw [hw]
    · exact Option.some_ne_none s
    · exact signOf?_normalize _ _ _

end Number

end Formula
