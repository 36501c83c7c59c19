import Formula.Bindings
import Formula.Elementary
import Formula.Expr

/-!
# Evaluating trees

`Expr.eval` computes the value of a tree under bindings, or the first error from left to right.

* Operands are evaluated before their operator is applied, the left one first.
* A divisor that equals zero is an error; everything else follows the arithmetic of `Float`.
* Two numbers are equal when they differ by less than `tolerance`, while the order of numbers is
  exact.  A test holds when its value is farther from zero than `tolerance`.
* Of a conditional only the branch that is chosen is evaluated.
* Whether a called function exists, and is called with one argument, is settled before its argument
  is evaluated.
-/

namespace Formula

/-- Numbers that differ by less are equal, and a test with a value so near to zero fails. -/
def tolerance : Float := 1e-10

/-- A test with this value holds. -/
def holds (v : Float) : Bool := v.abs > tolerance

/-- The value with a sign in front of it. -/
def Sign.apply (s : Sign) (v : Float) : Float :=
  match s with
  | plus => v
  | minus => -v

/-- The result of an arithmetic operation. -/
def Arith.apply (op : Arith) (l r : Float) : Outcome :=
  match op with
  | add => .ok (l + r)
  | sub => .ok (l - r)
  | mul => .ok (l * r)
  | div => if r == 0.0 then .error .divisionByZero else .ok (l / r)
  | pow => .ok (l.pow r)

/-- The comparison holds between the two values. -/
def Comparison.test (op : Comparison) (l r : Float) : Bool :=
  match op with
  | lt => l < r
  | gt => l > r
  | le => l ≤ r
  | ge => l ≥ r
  | eq => (l - r).abs < tolerance
  | ne => !((l - r).abs < tolerance)

/-- The value of a comparison: one if it holds and zero if not. -/
def Comparison.apply (op : Comparison) (l r : Float) : Float :=
  if op.test l r then 1.0 else 0.0

namespace Expr

/-- The value of a tree under the bindings `b`. -/
def eval (b : Bindings) : Expr → Outcome
  | num v => .ok v
  | var n =>
    match b n with
    | some v => .ok v
    | none => .error (.unbound n)
  | signed s x => do
    let v ← eval b x
    return s.apply v
  | arith op l r => do
    let v ← eval b l
    let w ← eval b r
    op.apply v w
  | compare op l r => do
    let v ← eval b l
    let w ← eval b r
    return op.apply v w
  | choice c t e => do
    let v ← eval b c
    if holds v then eval b t else eval b e
  | call name [x] =>
    match Elementary.find? name with
    | none => .error (.unknownFunction name)
    | some f => do f.apply (← eval b x)
  | call name args =>
    match Elementary.find? name with
    | none => .error (.unknownFunction name)
    | some _ => .error (.arity name args.length)

end Expr

end Formula
