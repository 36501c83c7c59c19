import Formula.Proofs.Number.Packing

/-!
# Numbers that are exact

Rounding drops only zeros if the number `m * 2 ^ q` is given with a smaller exponent and zeros below
its mantissa.  So every decimal number whose value is that of a `Float` reads as this `Float`.

* `Number.Canonical.roundWithAccuracy_eq`: rounding of such a number.
* `Number.Canonical.ofScientific_of_nonneg` and `Number.Canonical.ofScientific_of_neg`: the whole
  number `m * 2 ^ q`, and for negative `q` the decimal fraction `(m * 5 ^ (-q)) * 10 ^ q`.
* `Number.signOf?_ofScientific`: a decimal number without a sign is not negative.
-/

namespace Formula

namespace Number

open Float.Model (Format UnpackedFloat totalExponent)
open Float.Model.UnpackedFloat

variable {m : Nat} {q : Int} {s : UnpackedFloat.Sign}

theorem log2_mul_two_pow (hm : m ≠ 0) (j : Nat) : (m * 2 ^ j).log2 = m.log2 + j := by
  have hlow := (Nat.le_log2 hm).1 (Nat.le_refl _)
  have hhigh := (Nat.log2_lt hm).1 (Nat.lt_succ_self _)
  rw [Nat.log2_eq_iff (Nat.mul_ne_zero hm (Nat.ne_of_gt (Nat.two_pow_pos j))), Nat.pow_add,
    Nat.add_right_comm, Nat.pow_add 2 (m.log2 + 1)]
  exact ⟨Nat.mul_le_mul_right _ hlow, Nat.mul_lt_mul_of_pos_right hhigh (Nat.two_pow_pos j)⟩

/-- The exponent of a number in range is the one that rounding aims at, however the number is
given. -/
theorem Canonical.targetExponent_eq (h : Canonical m q) (j : Nat) :
    Format.binary64.targetExponent (totalExponent (m * 2 ^ j) (q - j)) = q := by
  have hm : m ≠ 0 := Nat.ne_of_gt h.pos
  have hlt : m.log2 < 53 := (Nat.log2_lt hm).2 h.lt
  have hfull : 52 ≤ m.log2 ∨ q = -1074 := h.full.imp_left (Nat.le_log2 hm).2
  have hle := h.le
  rw [Format.targetExponent, totalExponent, log2_mul_two_pow hm]
  simp only [Format.mantissaBits, Format.minExponent]
  omega

theorem shiftRight_exact (m j : Nat) :
    (⟨m * 2 ^ j, false, false⟩ : ExtendedMantissa) >>> j = ⟨m, false, false⟩ := by
  -- the first `j` of `j + 1` shifts are those of the mantissa `m * 2`
  induction j generalizing m with
  | zero => rw [Nat.pow_zero, Nat.mul_one]; rfl
  | succ j ih =>
    have hsplit : m * 2 ^ (j + 1) = m * 2 * 2 ^ j := by rw [Nat.pow_succ', Nat.mul_assoc]
    show ExtendedMantissa.shiftRightOne ((⟨m * 2 ^ (j + 1), false, false⟩ : ExtendedMantissa) >>> j)
      = _
    rw [hsplit, ih (m * 2)]
    simp [ExtendedMantissa.shiftRightOne]

theorem Canonical.shiftToTargetExponent_eq (h : Canonical m q) (j : Nat) :
    shiftToTargetExponent Format.binary64 (m * 2 ^ j) (q - j) .exact = (⟨m, false, false⟩, q) := by
  have hshift : (q - (q - j)).toNat = j := by omega
  simp only [shiftToTargetExponent, shiftToExponent, h.targetExponent_eq, hshift,
    ExtendedMantissa.ofMantissaAndAccuracy, shiftRight_exact]
  congr 1
  omega

/-- Rounding drops the zeros below the mantissa. -/
theorem Canonical.roundWithAccuracy_eq (h : Canonical m q) (s : UnpackedFloat.Sign) (j : Nat) :
    roundWithAccuracy Format.binary64 s (m * 2 ^ j) (q - j) .exact = .finite s m q h.pos := by
  have hagain : shiftToTargetExponent Format.binary64 m q .exact = (⟨m, false, false⟩, q) := by
    have h0 := h.shiftToTargetExponent_eq 0
    rwa [Nat.pow_zero, Nat.mul_one, show q - (0 : Nat) = q by omega] at h0
  have hround : (⟨m, false, false⟩ : ExtendedMantissa).roundedMantissa = m := rfl
  simp only [roundWithAccuracy, h.shiftToTargetExponent_eq, hround, hagain,
    dif_neg (Nat.ne_of_gt h.pos)]

/-! ### Whole numbers and decimal fractions -/

theorem two_pow_exponentBits : (2 ^ Format.binary64.exponentBits : Int) = 2048 := rfl

/-- The whole number that a `Float` is reads as it. -/
theorem Canonical.ofScientific_of_nonneg (h : Canonical m q) (hq : 0 ≤ q) :
    ofScientific Format.binary64 (m * 2 ^ q.toNat) 0 = .finite .positive m q h.pos := by
  have hm : m * 2 ^ q.toNat ≠ 0 :=
    Nat.mul_ne_zero (Nat.ne_of_gt h.pos) (Nat.ne_of_gt (Nat.two_pow_pos _))
  have hmul : (m * 2 ^ q.toNat) <<< Format.binary64.mantissaBits * 10 ^ (0 : Int).toNat =
      m * 2 ^ (q.toNat + 53) := by
    rw [Nat.shiftLeft_eq, Nat.pow_add, ← Nat.mul_assoc]
    exact Nat.mul_one _
  have hexp : -(Format.binary64.mantissaBits : Int) + 0 = q - (q.toNat + 53 : Nat) := by
    have hbits : Format.binary64.mantissaBits = 53 := rfl
    omega
  unfold ofScientific
  rw [dif_neg hm, two_pow_exponentBits, if_neg (by omega), if_neg (by omega),
    if_pos (Int.le_refl 0), mul, hmul, hexp, h.roundWithAccuracy_eq]
  rfl

theorem log2_mul_le {m n : Nat} (hm : m ≠ 0) (hn : n ≠ 0) :
    (m * n).log2 ≤ m.log2 + n.log2 + 1 := by
  have hm' := (Nat.log2_lt hm).1 (Nat.lt_succ_self _)
  have hn' := (Nat.log2_lt hn).1 (Nat.lt_succ_self _)
  have hlt : m * n < 2 ^ (m.log2 + n.log2 + 2) := by
    rw [show m.log2 + n.log2 + 2 = m.log2.succ + n.log2.succ by omega, Nat.pow_add]
    exact Nat.mul_lt_mul_of_lt_of_lt hm' hn'
  have := (Nat.log2_lt (Nat.mul_ne_zero hm hn)).2 hlt
  omega

theorem ten_pow_eq (k : Nat) : 10 ^ k = 5 ^ k * 2 ^ k := by
  rw [← Nat.mul_pow]

/-- The quotient of a decimal fraction is computed to so many bits that the division comes out
even. -/
theorem Canonical.divCore_eq (h : Canonical m q) {k : Nat} (hk : q = -k) (hpos : 0 < k) :
    ∃ j : Nat, divCore Format.binary64 (m * 5 ^ k) 0 (10 ^ k) 0 = (m * 2 ^ j, q - j, .exact) := by
  have hm : m ≠ 0 := Nat.ne_of_gt h.pos
  have hfive : 5 ^ k ≠ 0 := Nat.ne_of_gt (Nat.pow_pos (by decide))
  have hlog : m.log2 < 53 := (Nat.log2_lt hm).2 h.lt
  have hnum := log2_mul_le hm hfive
  have hden : (10 ^ k).log2 = (5 ^ k).log2 + k := by
    rw [ten_pow_eq, log2_mul_two_pow hfive]
  have hle := h.le
  -- the target exponent `T` is not above `q`, so that all factors of two of `10 ^ k` cancel
  generalize hT : Format.binary64.targetExponent
    (totalExponent (m * 5 ^ k) 0 - totalExponent (10 ^ k) 0) = T
  have hTq : T ≤ q := by
    rw [← hT, Format.targetExponent, totalExponent, totalExponent, hden]
    simp only [Format.mantissaBits, Format.minExponent]
    omega
  obtain ⟨j, rfl⟩ : ∃ j : Nat, T = q - j := ⟨(q - T).toNat, by omega⟩
  have hmin : min (0 - 0) (q - j) = q - j := by omega
  have hshift : (0 - 0 - (q - j)).toNat = k + j := by omega
  have hmul : (m * 5 ^ k) <<< (k + j) = m * 2 ^ j * 10 ^ k := by
    rw [Nat.shiftLeft_eq, Nat.pow_add, ten_pow_eq, Nat.mul_comm (2 ^ k), Nat.mul_mul_mul_comm]
  have hten : 0 < 10 ^ k := Nat.pow_pos (by decide)
  refine ⟨j, ?_⟩
  simp only [divCore, hT, hmin, hshift, hmul, Nat.mul_div_cancel _ hten, Nat.mul_mod_left]
  rfl

/-- The decimal fraction that a `Float` is reads as it. -/
theorem Canonical.ofScientific_of_neg (h : Canonical m q) {k : Nat} (hk : q = -k) (hpos : 0 < k) :
    ofScientific Format.binary64 (m * 5 ^ k) q = .finite .positive m q h.pos := by
  have hm : m * 5 ^ k ≠ 0 :=
    Nat.mul_ne_zero (Nat.ne_of_gt h.pos) (Nat.ne_of_gt (Nat.pow_pos (by decide)))
  have hle := h.le
  obtain ⟨j, hdiv⟩ := h.divCore_eq hk hpos
  have hnat : (-q).toNat = k := by omega
  unfold ofScientific
  rw [dif_neg hm, two_pow_exponentBits, if_neg (by omega), if_neg (by omega), if_neg (by omega)]
  simp only [div, hnat, hdiv, h.roundWithAccuracy_eq]
  rfl

/-! ### Signs -/

theorem signOf?_roundWithAccuracy (spec : Format) (s : UnpackedFloat.Sign) (m : Nat) (e : Int)
    (a : Accuracy) :
    signOf? (roundWithAccuracy spec s m e a) = some s := by
  unfold roundWithAccuracy
  dsimp only
  split <;> rfl

/-- A decimal number without a sign is not negative. -/
theorem signOf?_ofScientific (spec : Format) (m : Nat) (e : Int) :
    signOf? (ofScientific spec m e) = some .positive := by
  unfold ofScientific
  split
  · rfl
  · split
    · rfl
    · split
      · rfl
      · split
        · exact signOf?_roundWithAccuracy ..
        · exact signOf?_roundWithAccuracy ..

end Number

end Formula
