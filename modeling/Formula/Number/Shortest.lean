import Formula.Number.Decimal

/-!
# Writing numbers

`Number.render` writes a `Float` with the fewest digits that read back to it, always
positionally and without an exponent: `1e21` is written out with 21 zeros and `1e-7` as
`0.0000001`.  A whole number has no point, negative zero is `-0`, and the values that no digits
denote are `inf`, `-inf` and `NaN`.

A finite value is `m * 2 ^ q`.  A *grid* is the set of multiples of one power of ten.  Of the
grids, from coarse to fine, `Number.shortest` takes the first on which one of the two neighbours
of the value reads back to it; of two such neighbours it takes the nearer, and of two equally
near the larger.  The search ends on a grid that holds the value itself.

* `Number.shortest` finds the digits.
* `Decimal.positional` writes them.
-/

namespace Formula

/-- The last `width` decimal digits of `n`, leading zeros included. -/
def Number.lastDigits : Nat → Nat → List Char
  | 0, _ => []
  | width + 1, n => lastDigits width (n / 10) ++ [Nat.digitChar (n % 10)]

/-- A decimal number written without an exponent: its whole part, then, if the exponent is
negative, a point and as many digits. -/
def Decimal.positional (d : Decimal) : List Char :=
  let digits := d.digits * Nat.pow 10 d.exponent.toNat
  match (-d.exponent).toNat with
  | 0 => Nat.toDigits 10 digits
  | places =>
    Nat.toDigits 10 (digits / Nat.pow 10 places) ++ '.' :: Number.lastDigits places digits

namespace Number

/-- The point number `n` of the grid of the multiples of `10 ^ p`, written without an exponent. -/
def gridPoint (p : Int) (n : Nat) : Decimal := ⟨n * Nat.pow 10 p.toNat, min p 0⟩

/-- The value `m * 2 ^ q` as a multiple of `10 ^ p`: numerator and denominator of a fraction. -/
def inGridUnits (m : Nat) (q p : Int) : Nat × Nat :=
  (m * Nat.pow 2 q.toNat * Nat.pow 10 (-p).toNat, Nat.pow 2 (-q).toNat * Nat.pow 10 p.toNat)

/-- A neighbour of `x = m * 2 ^ q` on the grid of the multiples of `10 ^ p` that reads back to
`x`, the nearer one if there are two. -/
def neighbour? (x : Float) (m : Nat) (q p : Int) : Option Decimal :=
  let (num, den) := inGridUnits m q p
  let below := gridPoint p (num / den)
  let above := gridPoint p (num / den + 1)
  let (near, far) := if 2 * (num % den) < den then (below, above) else (above, below)
  if near.toFloat = x then some near
  else if far.toFloat = x then some far
  else none

/-- The exponent of the finest grid that the search for `m * 2 ^ q` comes to.  The value itself is
on it. -/
def finest (q : Int) : Int := min q 0

/-- The search over the grid that is `k` powers of ten coarser than the finest one, and over all
finer ones. -/
def shortestFrom (x : Float) (m : Nat) (q : Int) : Nat → Decimal
  | 0 =>
    let (num, den) := inGridUnits m q (finest q)
    gridPoint (finest q) (num / den)
  | k + 1 => (neighbour? x m q (finest q + (k + 1 : Nat))).getD (shortestFrom x m q k)

/-- The exponent of a power of ten above `m * 2 ^ q`: the number of binary digits before the
point, times a bound on `log₁₀ 2`. -/
def coarsest (m : Nat) (q : Int) : Int := (m.log2 + 1 + q) * 30103 / 100000 + 1

/-- The decimal number with the fewest digits that reads back to `x = m * 2 ^ q`. -/
def shortest (x : Float) (m : Nat) (q : Int) : Decimal :=
  shortestFrom x m q (coarsest m q - finest q).toNat

/-- The sign bit of a value is set, and the value is not NaN. -/
def isNegative (v : Float) : Bool :=
  match v.toModel.unpack with
  | .finite .negative .. | .zero .negative | .infinity .negative => true
  | _ => false

/-- The text of a value whose sign bit is clear. -/
def renderMagnitude (v : Float) : String :=
  match v.toModel.unpack with
  | .notANumber => "NaN"
  | .infinity _ => "inf"
  | .zero _ => "0"
  | .finite _ m q _ => String.ofList (shortest v m q).positional

/-- The text of a `Float`. -/
def render (v : Float) : String :=
  if isNegative v then "-" ++ renderMagnitude (-v) else renderMagnitude v

end Number

end Formula
