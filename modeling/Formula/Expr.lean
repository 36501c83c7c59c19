import Formula.Operator

/-!
# Expression trees

A formula denotes a tree of numbers, variables, operators, conditionals and function calls.
Every value is a `Float`; a comparison gives `1` or `0`.  A formula that has been read applies a
function to one argument, calls of other lengths are trees like all others.

* `Expr.size` and `Expr.height` measure a tree, and `Expr.maxHeight` bounds those that are read.
* `Expr.same` compares trees and their numbers as numbers: the two zeros are the same, and NaN
  is not the same as itself.
-/

namespace Formula

/-- An expression tree. -/
inductive Expr where
  | num (value : Float)
  | var (name : String)
  /-- A sign and its operand. -/
  | signed (s : Sign) (operand : Expr)
  | arith (op : Arith) (left right : Expr)
  | compare (op : Comparison) (left right : Expr)
  /-- The value of `yes` or of `no`, as `test` says. -/
  | choice (test yes no : Expr)
  | call (name : String) (args : List Expr)

namespace Expr

/-- Induction on trees, where the hypothesis for a call is about each of its arguments. -/
@[elab_as_elim, induction_eliminator]
theorem induction {motive : Expr → Prop} (num : ∀ v, motive (.num v)) (var : ∀ n, motive (.var n))
    (signed : ∀ s x, motive x → motive (.signed s x))
    (arith : ∀ op l r, motive l → motive r → motive (.arith op l r))
    (compare : ∀ op l r, motive l → motive r → motive (.compare op l r))
    (choice : ∀ c t e, motive c → motive t → motive e → motive (.choice c t e))
    (call : ∀ name args, (∀ x ∈ args, motive x) → motive (.call name args)) (e : Expr) :
    motive e :=
  @Expr.rec motive (fun xs => ∀ x ∈ xs, motive x) num var signed arith compare choice call
    (fun _ h => absurd h List.not_mem_nil)
    (fun _ _ hx hxs => List.forall_mem_cons.2 ⟨hx, hxs⟩) e

/-- The tree is a number. -/
def isNum : Expr → Bool
  | num _ => true
  | _ => false

mutual

/-- The number of nodes. -/
def size : Expr → Nat
  | num _ | var _ => 1
  | signed _ x => 1 + x.size
  | arith _ l r | compare _ l r => 1 + l.size + r.size
  | choice c t e => 1 + c.size + t.size + e.size
  | call _ args => 1 + sizeAll args

/-- The number of nodes of several trees. -/
def sizeAll : List Expr → Nat
  | [] => 0
  | x :: xs => x.size + sizeAll xs

end

mutual

/-- The number of nodes on the longest path from the root. -/
def height : Expr → Nat
  | num _ | var _ => 1
  | signed _ x => 1 + x.height
  | arith _ l r | compare _ l r => 1 + max l.height r.height
  | choice c t e => 1 + max c.height (max t.height e.height)
  | call _ args => 1 + heightAll args

/-- The height of the highest of several trees. -/
def heightAll : List Expr → Nat
  | [] => 0
  | x :: xs => max x.height (heightAll xs)

end

theorem height_pos (e : Expr) : 0 < e.height := by
  cases e <;> simp only [height] <;> omega

/-- The height that no tree of a formula exceeds. -/
def maxHeight : Nat := 512

mutual

/-- Two trees have the same shape, operators and names, and equal numbers. -/
def same : Expr → Expr → Bool
  | num v, num w => v == w
  | var n, var m => n == m
  | signed s x, signed t y => s == t && x.same y
  | arith o l r, arith p l' r' => o == p && l.same l' && r.same r'
  | compare o l r, compare p l' r' => o == p && l.same l' && r.same r'
  | choice c t e, choice c' t' e' => c.same c' && t.same t' && e.same e'
  | call n xs, call m ys => n == m && sameAll xs ys
  | _, _ => false

/-- Two lists of trees are the same, tree by tree. -/
def sameAll : List Expr → List Expr → Bool
  | [], [] => true
  | x :: xs, y :: ys => x.same y && sameAll xs ys
  | _, _ => false

end

instance : BEq Expr := ⟨same⟩

end Expr

end Formula
