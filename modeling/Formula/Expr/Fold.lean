import Formula.Expr.Eval

/-!
# Constant folding

`Expr.fold` replaces, from the leaves up, each operation on numbers by the number that is its
value, and a conditional whose test is a number by the branch that the test chooses.  An operation
on numbers that has no value stays, so that its error still arises when the tree is evaluated.
-/

namespace Formula

namespace Expr

/-- The tree is an operation whose operands are all numbers. -/
def isClosed : Expr → Bool
  | signed _ x => x.isNum
  | arith _ l r | compare _ l r => l.isNum && r.isNum
  | call _ args => args.all isNum
  | _ => false

/-- The number that an operation on numbers gives; the tree itself if there is none. -/
def collapse (e : Expr) : Expr :=
  if e.isClosed then
    match e.eval Bindings.none with
    | .ok v => num v
    | .error _ => e
  else e

mutual

/-- The tree with its constant parts computed. -/
def fold : Expr → Expr
  | num v => num v
  | var n => var n
  | signed s x => (signed s x.fold).collapse
  | arith op l r => (arith op l.fold r.fold).collapse
  | compare op l r => (compare op l.fold r.fold).collapse
  | choice c t e =>
    match c.fold with
    | num v => if holds v then t.fold else e.fold
    | c => choice c t.fold e.fold
  | call name args => (call name (foldAll args)).collapse

/-- Several trees with their constant parts computed. -/
def foldAll : List Expr → List Expr
  | [] => []
  | x :: xs => x.fold :: foldAll xs

end

end Expr

end Formula
