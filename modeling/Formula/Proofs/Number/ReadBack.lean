import Formula.Number.Literal
import Formula.Number.Shortest
import Formula.Proofs.Number.Rounding

/-!
# Numbers read back

A finite number whose sign bit is clear is written with digits and at most one point, and what is
written reads back as the number.  The search for the fewest digits only returns decimal numbers
that read back, except on the finest grid, on which the number itself is a point.

* `Decimal.unsigned?_positional`: the digits of a decimal number are read as that decimal number.
* `Number.shortestFrom_spec`: the search for digits returns a decimal number that reads back.
* **`Number.literal?_renderMagnitude`**: what is written for a number reads back.
* `Number.isNegative_of_literal?`: a text that does not start with `-` is no negative number.
* `Number.isNaN_of_literal?`: a text that starts neither with a sign nor with `n` is not NaN.
-/

namespace Formula

namespace Number

open Float.Model (Format UnpackedFloat)
open Float.Model.UnpackedFloat

/-! ### Digits -/

theorem ofDigits_append (cs ds : List Char) :
    ofDigits (cs ++ ds) = 10 ^ ds.length * ofDigits cs + ofDigits ds := by
  unfold ofDigits
  rw [Nat.ofDigitChars_append, Nat.ofDigitChars_eq_ofDigitChars_zero]

theorem ofDigits_digitChar {d : Nat} (h : d < 10) : ofDigits [d.digitChar] = d := by
  rw [ofDigits, Nat.ofDigitChars_cons_digitChar_of_lt_ten h]
  simp

theorem length_lastDigits (width n : Nat) : (lastDigits width n).length = width := by
  induction width generalizing n with
  | zero => rfl
  | succ width ih => rw [lastDigits, List.length_append, ih, List.length_singleton]

theorem isDigit_of_mem_lastDigits {width n : Nat} {c : Char} (h : c ∈ lastDigits width n) :
    c.isDigit = true := by
  induction width generalizing n with
  | zero => cases h
  | succ width ih =>
    rw [lastDigits, List.mem_append, List.mem_singleton] at h
    rcases h with h | rfl
    · exact ih h
    · have hlt : n % 10 < 10 := Nat.mod_lt n (by decide)
      simpa using hlt

theorem ofDigits_lastDigits (width n : Nat) : ofDigits (lastDigits width n) = n % 10 ^ width := by
  induction width generalizing n with
  | zero => rw [Nat.pow_zero, Nat.mod_one]; rfl
  | succ width ih =>
    rw [lastDigits, ofDigits_append, ih, ofDigits_digitChar (Nat.mod_lt n (by decide)),
      List.length_singleton, @Nat.pow_succ' 10 width, Nat.mod_mul]
    omega

/-- The digits of the whole part and of the fraction, in one, are those of the number. -/
theorem ofDigits_toDigits_append_lastDigits (width n : Nat) :
    ofDigits (Nat.toDigits 10 (n / 10 ^ width) ++ lastDigits width n) = n := by
  rw [ofDigits_append, length_lastDigits, ofDigits_lastDigits, ofDigits,
    Nat.ofDigitChars_ten_toDigits, Nat.div_add_mod]

end Number

open Number

/-- The digits of a decimal number are read as that decimal number. -/
theorem Decimal.unsigned?_positional {d : Decimal} (h : d.exponent ≤ 0) :
    unsigned? d.positional = some d := by
  obtain ⟨digits, exponent⟩ := d
  have h : exponent ≤ 0 := h
  have hdigits (n : Nat) : ∀ c ∈ Nat.toDigits 10 n, c.isDigit = true := fun c hc =>
    Nat.isDigit_of_mem_toDigits (by decide) (by decide) hc
  have hscale : digits * 10 ^ exponent.toNat = digits := by
    rw [Int.toNat_of_nonpos h, Nat.pow_zero, Nat.mul_one]
  simp only [Decimal.positional, Nat.pow_eq, hscale]
  split
  · rename_i hplaces
    obtain rfl : exponent = 0 := by omega
    rw [unsigned?_of_digits Nat.toDigits_ne_nil (hdigits digits), ofDigits,
      Nat.ofDigitChars_ten_toDigits]
  · rename_i places hplaces
    rw [unsigned?_of_fraction Nat.toDigits_ne_nil (hdigits _)
      fun c hc => isDigit_of_mem_lastDigits hc, ofDigits_toDigits_append_lastDigits,
      length_lastDigits]
    congr 2
    omega

/-- The text of a decimal number starts with a digit, and goes on with digits and points. -/
theorem Decimal.positional_cases {d : Decimal} :
    ∃ c cs, d.positional = c :: cs ∧ c.isDigit = true ∧
      ∀ c ∈ cs, c.isDigit = true ∨ c = '.' := by
  have hwhole (n : Nat) (ds : List Char) (hds : ∀ c ∈ ds, c.isDigit = true ∨ c = '.') :
      ∃ c cs, Nat.toDigits 10 n ++ ds = c :: cs ∧ c.isDigit = true ∧
        ∀ c ∈ cs, c.isDigit = true ∨ c = '.' := by
    have hdigits : ∀ c ∈ Nat.toDigits 10 n, c.isDigit = true := fun c hc =>
      Nat.isDigit_of_mem_toDigits (by decide) (by decide) hc
    obtain ⟨c, cs, hcs⟩ := List.exists_cons_of_ne_nil (Nat.toDigits_ne_nil (b := 10) (n := n))
    rw [hcs] at hdigits ⊢
    obtain ⟨hc, hcs⟩ := List.forall_mem_cons.1 hdigits
    refine ⟨c, cs ++ ds, rfl, hc, List.forall_mem_append.2 ⟨fun c hc => .inl (hcs c hc), hds⟩⟩
  simp only [Decimal.positional, Nat.pow_eq]
  split
  · have h := hwhole (d.digits * 10 ^ d.exponent.toNat) [] (by simp)
    rwa [List.append_nil] at h
  · refine hwhole _ _ (List.forall_mem_cons.2 ⟨.inr rfl, fun c hc => .inl ?_⟩)
    exact isDigit_of_mem_lastDigits hc

namespace Number

open Float.Model (Format UnpackedFloat)
open Float.Model.UnpackedFloat

variable {v : Float} {m : Nat} {q : Int} {hm : 0 < m}

/-! ### The search for digits -/

theorem toFloat_eq {d : Decimal} {u : UnpackedFloat}
    (hd : ofScientific Format.binary64 d.digits d.exponent = u) (hv : v.toModel.unpack = u) :
    d.toFloat = v := by
  have hmodel : Float.Model.ofScientific d.digits d.exponent = v.toModel := by
    rw [← pack_unpack v.toModel, hv, ← hd]
    rfl
  rw [Decimal.toFloat, hmodel]

/-- The point of the finest grid at which the search ends: the number itself. -/
theorem gridPoint_finest (m : Nat) (q : Int) :
    gridPoint (finest q) ((inGridUnits m q (finest q)).1 / (inGridUnits m q (finest q)).2) =
      if 0 ≤ q then ⟨m * 2 ^ q.toNat, 0⟩ else ⟨m * 5 ^ (-q).toNat, q⟩ := by
  split
  · rename_i hq
    have hfinest : finest q = 0 := by
      rw [finest]
      omega
    have hneg : (-q).toNat = 0 := by omega
    simp [gridPoint, inGridUnits, hfinest, hneg]
  · rename_i hq
    have hfinest : finest q = q := by
      rw [finest]
      omega
    have hpos : q.toNat = 0 := by omega
    have hdiv : m * 10 ^ (-q).toNat / 2 ^ (-q).toNat = m * 5 ^ (-q).toNat := by
      rw [ten_pow_eq, ← Nat.mul_assoc, Nat.mul_div_cancel _ (Nat.two_pow_pos _)]
    have hmin : min q 0 = q := by omega
    simp [gridPoint, inGridUnits, hfinest, hpos, hdiv, hmin]

theorem toFloat_gridPoint_finest (hv : v.toModel.unpack = .finite .positive m q hm) :
    (gridPoint (finest q) ((inGridUnits m q (finest q)).1 / (inGridUnits m q (finest q)).2)).toFloat
      = v := by
  have h := canonical_of_unpack hv
  rw [gridPoint_finest]
  split
  · exact toFloat_eq (h.ofScientific_of_nonneg ‹_›) hv
  · exact toFloat_eq (h.ofScientific_of_neg (by omega) (by omega)) hv

/-- A neighbour is a grid point that reads back. -/
theorem neighbour?_spec {p : Int} {d : Decimal} (h : neighbour? v m q p = some d) :
    d.toFloat = v ∧ d.exponent ≤ 0 := by
  have hgrid (n : Nat) : (gridPoint p n).exponent ≤ 0 := by
    show min p 0 ≤ 0
    omega
  simp only [neighbour?] at h
  split at h
  all_goals
    split at h
    · cases h
      exact ⟨‹_›, hgrid _⟩
    · split at h
      · cases h
        exact ⟨‹_›, hgrid _⟩
      · cases h

/-- The search for digits ends with a decimal number that reads back. -/
theorem shortestFrom_spec (hv : v.toModel.unpack = .finite .positive m q hm) (k : Nat) :
    (shortestFrom v m q k).toFloat = v ∧ (shortestFrom v m q k).exponent ≤ 0 := by
  induction k with
  | zero =>
    refine ⟨toFloat_gridPoint_finest hv, ?_⟩
    show min (finest q) 0 ≤ 0
    omega
  | succ k ih =>
    rw [shortestFrom]
    -- a coarser grid has a point that reads back, or the search goes on to the finer ones
    cases h : neighbour? v m q (finest q + (k + 1 : Nat)) with
    | none => exact ih
    | some d => exact neighbour?_spec h

/-! ### What is written -/

theorem isNegative_eq_true_iff : isNegative v = true ↔ signOf? v.toModel.unpack = some .negative := by
  unfold isNegative
  cases v.toModel.unpack with
  | notANumber => simp [signOf?]
  | infinity s | zero s | finite s m q hm => cases s <;> simp [signOf?]

theorem isFinite_neg (v : Float) : (-v).isFinite = v.isFinite := by
  show (-v.toModel).unpack.isFinite = v.toModel.unpack.isFinite
  rw [unpack_neg]
  cases v.toModel.unpack <;> rfl

theorem isNegative_neg (h : isNegative v = true) : isNegative (-v) = false := by
  rw [isNegative_eq_true_iff] at h
  rw [← Bool.not_eq_true, isNegative_eq_true_iff]
  show signOf? (-v.toModel).unpack ≠ _
  rw [unpack_neg, signOf?_neg, h]
  intro hsign
  cases hsign

/-- What is written for a finite number without a sign is a decimal number that reads back. -/
theorem exists_renderMagnitude (hv : v.isFinite = true) (hpos : isNegative v = false) :
    ∃ d : Decimal, renderMagnitude v = String.ofList d.positional ∧ d.toFloat = v ∧
      d.exponent ≤ 0 := by
  have hfinite : v.toModel.unpack.isFinite = true := hv
  have hsign : signOf? v.toModel.unpack ≠ some .negative := fun h => by
    rw [isNegative_eq_true_iff.2 h] at hpos
    cases hpos
  unfold renderMagnitude
  cases hu : v.toModel.unpack with
  | notANumber => simp [hu, UnpackedFloat.isFinite] at hfinite
  | infinity s => simp [hu, UnpackedFloat.isFinite] at hfinite
  | zero s =>
    cases s with
    | negative => simp [hu, signOf?] at hsign
    | positive =>
      have hzero : "0" = String.ofList (Decimal.positional ⟨0, 0⟩) := by decide
      exact ⟨⟨0, 0⟩, hzero, toFloat_eq rfl hu, Int.le_refl 0⟩
  | finite s m q hm =>
    cases s with
    | negative => simp [hu, signOf?] at hsign
    | positive => exact ⟨shortest v m q, rfl, shortestFrom_spec hu _⟩

theorem renderMagnitude_of_not_isFinite (hv : v.isFinite = false) :
    renderMagnitude v = "inf" ∨ renderMagnitude v = "NaN" := by
  have hfinite : v.toModel.unpack.isFinite = false := hv
  unfold renderMagnitude
  cases hu : v.toModel.unpack with
  | notANumber => exact .inr rfl
  | infinity s => exact .inl rfl
  | zero s => simp [hu, UnpackedFloat.isFinite] at hfinite
  | finite s m q hm => simp [hu, UnpackedFloat.isFinite] at hfinite

theorem toLower_of_isDigit {c : Char} (h : c.isDigit = true) : c.toLower = c := by
  have hle : c.toNat ≤ 57 := (Char.isDigit_iff_toNat.1 h).2
  have hlt : ¬(c.val ≥ 'A'.val ∧ c.val ≤ 'Z'.val) := by
    rintro ⟨hge, -⟩
    have hge : 65 ≤ c.toNat := hge
    omega
  rw [Char.toLower, dif_neg hlt]

/-- A text that starts with a digit is no name of a constant and has no sign. -/
theorem literal?_of_isDigit {c : Char} {cs : List Char} (hc : c.isDigit = true) :
    literal? (String.ofList (c :: cs)) = magnitude? (c :: cs) := by
  have hne (d : Char) (hd : d.isDigit = false) : c ≠ d := by
    rintro rfl
    rw [hc] at hd
    cases hd
  have hπ := hne 'π' (by decide)
  have hp := hne 'p' (by decide)
  have hℯ := hne 'ℯ' (by decide)
  have he := hne 'e' (by decide)
  have hminus := hne '-' (by decide)
  have hplus := hne '+' (by decide)
  simp only [literal?, read?, String.toList_ofList, List.map_cons, toLower_of_isDigit hc]
  simp [hπ, hp, hℯ, he]
  split <;> simp_all

/-- **What is written for a number reads back.** -/
theorem literal?_renderMagnitude (hv : v.isFinite = true) (hpos : isNegative v = false) :
    literal? (renderMagnitude v) = some v := by
  obtain ⟨d, htext, hd, hexp⟩ := exists_renderMagnitude hv hpos
  obtain ⟨c, cs, hcs, hc, -⟩ := d.positional_cases
  have hread : unsigned? (c :: cs) = some d := by
    rw [← hcs, Decimal.unsigned?_positional hexp]
  rw [htext, hcs, literal?_of_isDigit hc, magnitude?, hread, ← hd]

/-! ### Numbers without a sign -/

/-- A decimal number has the sign `+`. -/
theorem signOf?_toFloat (d : Decimal) : signOf? d.toFloat.toModel.unpack = some .positive := by
  show signOf? (Float.Model.pack _).unpack = _
  rw [signOf?_unpack_pack, signOf?_ofScientific]

theorem isNegative_of_magnitude? {cs : List Char} (h : magnitude? cs = some v) :
    isNegative v = false := by
  unfold magnitude? at h
  split at h
  · cases h
    rw [← Bool.not_eq_true, isNegative_eq_true_iff, signOf?_toFloat]
    simp
  · dsimp only at h
    split at h
    · cases h
      decide
    · split at h
      · cases h
        decide
      · cases h

/-- Only a text with the sign `-` in front is a negative number. -/
theorem isNegative_of_literal? {text : String} (h : literal? text = some v)
    (hminus : text.toList.head? ≠ some '-') : isNegative v = false := by
  unfold literal? at h
  dsimp only at h
  split at h
  · cases h
    decide
  · split at h
    · cases h
      decide
    · unfold read? at h
      split at h
      · simp_all
      · exact isNegative_of_magnitude? h
      · exact isNegative_of_magnitude? h

/-! ### Texts that are not NaN -/

theorem isNaN_of_signOf? {s : UnpackedFloat.Sign} (h : signOf? v.toModel.unpack = some s) :
    v.isNaN = false := by
  show v.toModel.unpack.isNaN = false
  cases hv : v.toModel.unpack with
  | notANumber =>
    rw [hv] at h
    cases h
  | _ => rfl

theorem isNaN_of_magnitude? {cs : List Char} (h : magnitude? cs = some v)
    (hhead : ∀ c ∈ cs.head?, c.toLower ≠ 'n') : v.isNaN = false := by
  unfold magnitude? at h
  split at h
  · cases h
    exact isNaN_of_signOf? (signOf?_toFloat _)
  · dsimp only at h
    split at h
    · cases h
      decide
    · split at h
      · rename_i hword
        cases cs with
        | nil => cases hword
        | cons c cs => exact absurd (List.cons.inj hword).1 (hhead c rfl)
      · cases h

/-- Only a text that starts with a sign or with `n` can be NaN. -/
theorem isNaN_of_literal? {text : String} (h : literal? text = some v)
    (hhead : ∀ c ∈ text.toList.head?, c ≠ '-' ∧ c ≠ '+' ∧ c.toLower ≠ 'n') : v.isNaN = false := by
  unfold literal? at h
  dsimp only at h
  split at h
  · cases h
    decide
  · split at h
    · cases h
      decide
    · unfold read? at h
      split at h
      · rename_i htext
        rw [htext] at hhead
        exact absurd rfl (hhead _ rfl).1
      · rename_i htext
        rw [htext] at hhead
        exact absurd rfl (hhead _ rfl).2.1
      · exact isNaN_of_magnitude? h fun c hc => (hhead c hc).2.2

end Number

end Formula
