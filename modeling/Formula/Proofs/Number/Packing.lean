import Mathlib
import Formula.Number.Decimal

/-!
# Bits and parts of a number

A `Float` is 64 bits: a sign, an exponent of 11 bits and a fraction of 52.  Taken apart, it is a
sign and, if it is finite and not zero, a mantissa and an exponent of two.

* `Number.Encodes` lists the five forms of the fields, each with what it stands for.
* `Number.encodes_unpack`, `Number.Encodes.pack_eq` and `Number.Encodes.unpack_eq`: bits stand for
  what they are taken apart into, and putting together and taking apart undo each other.
* `Number.Canonical` describes the mantissas and exponents that a `Float` can have, and
  `Number.canonical_of_unpack` says that it has no others.
* `Number.signOf?_unpack_pack`: the sign is kept, whether or not the other parts fit.
-/

namespace Formula

namespace Number

open Float.Model (Format UnpackedFloat)
open Float.Model.UnpackedFloat

/-! ### The three fields -/

section Fields

variable {spec : Format}

theorem toBitVec_ofBitVec (c : BitVec 1) : (UnpackedFloat.Sign.ofBitVec c).toBitVec = c := by
  revert c
  decide

theorem ofBitVec_toBitVec (s : UnpackedFloat.Sign) :
    UnpackedFloat.Sign.ofBitVec s.toBitVec = s := by
  cases s <;> rfl

theorem unpackSign_packComponents (s : UnpackedFloat.Sign) (E : BitVec spec.exponentBits)
    (F : BitVec spec.mantissaBitsWithoutImplicit) :
    unpackSign (packComponents spec s E F) = s.toBitVec := by
  ext i hi
  obtain rfl : i = 0 := by omega
  simp [unpackSign, packComponents, BitVec.getLsbD_append, BitVec.getElem_append]

/-- Bits are put together from their fields. -/
theorem packComponents_fields (b : BitVec spec.numBits) :
    packComponents spec (UnpackedFloat.Sign.ofBitVec (unpackSign b)) (unpackExponent b)
      (unpackMantissa b) = b := by
  rw [packComponents, toBitVec_ofBitVec]
  ext i hi
  -- the bit is one of the fraction, of the exponent, or the sign
  simp only [BitVec.getElem_append]
  split
  · simp only [unpackMantissa, BitVec.getElem_cast]
    grind
  · split
    · simp only [unpackExponent, BitVec.getElem_cast]
      grind
    · simp only [unpackSign, BitVec.getElem_cast]
      grind

end Fields

/-! ### What the fields stand for -/

/-- The fields of a `Float` and its parts.  There is one NaN only. -/
inductive Encodes : UnpackedFloat.Sign → BitVec 11 → BitVec 52 → UnpackedFloat → Prop
  | infinity {s : UnpackedFloat.Sign} : Encodes s (-1#11) 0#52 (.infinity s)
  | nan : Encodes .positive (-1#11) (1#52 <<< 51) .notANumber
  | zero {s : UnpackedFloat.Sign} : Encodes s 0#11 0#52 (.zero s)
  | subnormal {s : UnpackedFloat.Sign} {F : BitVec 52} (hF : 0 < F.toNat) :
      Encodes s 0#11 F (.finite s F.toNat (-1074) hF)
  | normal {s : UnpackedFloat.Sign} {E : BitVec 11} {F : BitVec 52} (hE : 0 < E.toNat)
      (hE' : E.toNat < 2047) : Encodes s E F (.finite s (2 ^ 52 + F.toNat) (E.toNat - 1075)
        (by omega))

variable {s : UnpackedFloat.Sign} {E : BitVec 11} {F : BitVec 52} {u : UnpackedFloat} {m : Nat}
  {q : Int}

theorem append_implicit (F : BitVec 52) : (1#1 ++ F).toNat = 2 ^ 52 + F.toNat := by
  rw [BitVec.toNat_append, ← Nat.shiftLeft_add_eq_or_of_lt F.isLt]
  rfl

theorem Encodes.unpack_eq (h : Encodes s E F u) :
    unpack Format.binary64 (packComponents Format.binary64 s E F) = u := by
  unfold unpack
  simp only [unpackMantissa_packComponents, unpackExponent_packComponents,
    unpackSign_packComponents, ofBitVec_toBitVec]
  cases h with
  | infinity => rfl
  | nan => rfl
  | zero => rfl
  | subnormal hF =>
    have hne : F ≠ 0#_ := by
      rintro rfl
      exact absurd hF (by decide)
    rw [if_neg (by decide), if_pos rfl, dif_neg hne]
    rfl
  | normal hE hE' =>
    have hneg : E ≠ -1#_ := by
      rintro rfl
      exact absurd hE' (by decide)
    have hzero : E ≠ 0#_ := by
      rintro rfl
      exact absurd hE (by decide)
    rw [if_neg hneg, if_neg hzero]
    congr 1
    · exact append_implicit F

theorem Encodes.pack_eq (h : Encodes s E F u) :
    pack Format.binary64 u = packComponents Format.binary64 s E F := by
  cases h with
  | infinity => rfl
  | nan => rfl
  | zero => rfl
  | subnormal hF =>
    have hlog : F.toNat.log2 < 52 := (Nat.log2_lt (by omega)).2 F.isLt
    unfold pack
    simp only
    rw [if_neg (by decide), if_neg (by simp [Format.mantissaBits]; omega)]
    simp
  | normal hE hE' =>
    have hF := F.isLt
    -- the mantissa has the implicit bit, and packing adds to the exponent what `Encodes` takes off
    have hlog : (2 ^ 52 + F.toNat).log2 = 52 := (Nat.log2_eq_iff (by omega)).2 (by omega)
    have hbias : ((E.toNat : Int) - 1075 + Format.binary64.exponentBias +
        Format.binary64.mantissaBitsWithoutImplicit).toNat = E.toNat := by
      simp [Format.exponentBias]
      omega
    unfold pack
    simp only [hbias, hlog]
    rw [if_neg (by simp; omega), if_pos (by decide)]
    congr 1
    · exact BitVec.ofNat_toNat ..
    · apply BitVec.eq_of_toNat_eq
      rw [BitVec.toNat_ofNat, Nat.add_mod_left, Nat.mod_eq_of_lt hF]

theorem toNat_ne_zero {w : Nat} {c : BitVec w} (h : c ≠ 0#w) : 0 < c.toNat :=
  Nat.pos_of_ne_zero fun hc => h (BitVec.eq_of_toNat_eq hc)

/-- Bits stand for what they are taken apart into. -/
theorem encodes_unpack {b : BitVec Format.binary64.numBits} (hb : Format.binary64.Valid b) :
    Encodes (UnpackedFloat.Sign.ofBitVec (unpackSign b)) (unpackExponent b) (unpackMantissa b)
      (unpack Format.binary64 b) := by
  suffices h : ∃ u, Encodes (UnpackedFloat.Sign.ofBitVec (unpackSign b)) (unpackExponent b)
      (unpackMantissa b) u by
    obtain ⟨u, hu⟩ := h
    have hunpack := hu.unpack_eq
    rw [packComponents_fields] at hunpack
    rwa [hunpack]
  by_cases hE : unpackExponent b = -1#_
  · by_cases hF : unpackMantissa b = 0#_
    · rw [hE, hF]
      exact ⟨_, .infinity⟩
    · -- there is one NaN only, so that its fields are known
      rw [hb.eq_packedNaN hE hF]
      exact ⟨_, .nan⟩
  · by_cases hzero : unpackExponent b = 0#_
    · rw [hzero]
      by_cases hF : unpackMantissa b = 0#_
      · rw [hF]
        exact ⟨_, .zero⟩
      · exact ⟨_, .subnormal (toNat_ne_zero hF)⟩
    · have hlt : (unpackExponent b).toNat ≠ 2047 := fun h => hE (BitVec.eq_of_toNat_eq h)
      have hle : (unpackExponent b).toNat < 2 ^ 11 := (unpackExponent b).isLt
      exact ⟨_, .normal (toNat_ne_zero hzero) (by omega)⟩

/-- Putting together what bits are taken apart into gives the bits. -/
theorem pack_unpack (v : Float.Model) : Float.Model.pack v.unpack = v := by
  have h := (encodes_unpack v.valid).pack_eq
  rw [packComponents_fields] at h
  obtain ⟨bits, hvalid⟩ := v
  simp only [Float.Model.pack, Float.Model.unpack, h]

/-! ### Parts that fit -/

/-- The number `m * 2 ^ q` has 53 bits and an exponent in range, and all its bits are used unless
the exponent is the least one. -/
structure Canonical (m : Nat) (q : Int) : Prop where
  pos : 0 < m
  lt : m < 2 ^ 53
  le : -1074 ≤ q
  ge : q ≤ 971
  full : 2 ^ 52 ≤ m ∨ q = -1074

theorem Encodes.canonical {s' : UnpackedFloat.Sign} {hm : 0 < m}
    (h : Encodes s E F (.finite s' m q hm)) :
    Canonical m q := by
  have hF := F.isLt
  cases h with
  | subnormal => exact ⟨hm, by omega, by omega, by omega, .inr rfl⟩
  | normal => exact ⟨hm, by omega, by omega, by omega, .inl (by omega)⟩

theorem canonical_of_unpack {v : Float.Model} {hm : 0 < m} (h : v.unpack = .finite s m q hm) :
    Canonical m q := by
  have henc := encodes_unpack v.valid
  have hunpack : unpack Format.binary64 v.toBits.toBitVec = .finite s m q hm := h
  rw [hunpack] at henc
  exact henc.canonical

/-! ### Signs -/

/-- The sign of the parts of a number.  NaN has none. -/
def signOf? : UnpackedFloat → Option UnpackedFloat.Sign
  | .infinity s | .zero s | .finite s _ _ _ => some s
  | .notANumber => none

/-- Fields that are not those of NaN keep their sign. -/
theorem signOf?_unpack_packComponents (h : E = -1#11 → F = 0#52) (s : UnpackedFloat.Sign) :
    signOf? (unpack Format.binary64 (packComponents Format.binary64 s E F)) = some s := by
  unfold unpack
  simp only [unpackMantissa_packComponents, unpackExponent_packComponents,
    unpackSign_packComponents, ofBitVec_toBitVec]
  split
  · rw [if_pos (h ‹_›)]
    rfl
  · split
    · split <;> rfl
    · rfl

/-- The sign is kept, whether or not the other parts fit. -/
theorem signOf?_unpack_pack (u : UnpackedFloat) :
    signOf? (Float.Model.pack u).unpack = signOf? u := by
  show signOf? (unpack Format.binary64 (pack Format.binary64 u)) = _
  cases u with
  | notANumber => rfl
  | infinity s => exact signOf?_unpack_packComponents (fun _ => rfl) s
  | zero s => exact signOf?_unpack_packComponents (fun _ => rfl) s
  | finite s m q hm =>
    unfold pack
    simp only
    split
    · exact signOf?_unpack_packComponents (fun _ => rfl) s
    · rename_i hlt
      generalize (q + Format.binary64.exponentBias +
        Format.binary64.mantissaBitsWithoutImplicit).toNat = n at hlt ⊢
      have hlt : n + 1 < 2 ^ 11 := Nat.lt_of_not_le hlt
      split
      · refine signOf?_unpack_packComponents (fun hE => ?_) s
        have hn : (BitVec.ofNat 11 n).toNat = 2047 := congrArg BitVec.toNat hE
        rw [BitVec.toNat_ofNat, Nat.mod_eq_of_lt (by omega)] at hn
        omega
      · exact signOf?_unpack_packComponents (fun hE => absurd hE (by decide)) s

theorem Encodes.neg (h : Encodes s E F u) (hu : u ≠ .notANumber) : Encodes (-s) E F u.neg := by
  cases h with
  | infinity => exact .infinity
  | nan => exact absurd rfl hu
  | zero => exact .zero
  | subnormal hF => exact .subnormal hF
  | normal hE hE' => exact .normal hE hE'

theorem signOf?_neg (u : UnpackedFloat) : signOf? u.neg = (signOf? u).map (-·) := by
  cases u <;> rfl

/-- A number is negated by negating its parts. -/
theorem unpack_neg (v : Float.Model) : (-v).unpack = v.unpack.neg := by
  by_cases hu : v.unpack = .notANumber
  · show (Float.Model.pack v.unpack.neg).unpack = _
    rw [hu]
    rfl
  · have h := (encodes_unpack v.valid).neg hu
    exact (congrArg (unpack Format.binary64) h.pack_eq).trans h.unpack_eq

end Number

end Formula
