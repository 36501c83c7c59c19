import Formula.Expr
import Formula.Number.Shortest

/-!
# Writing trees

`Expr.render` writes a tree as a formula in which every sign and operator is in parentheses with
its operands, so that the text shows the shape of the tree.  A conditional, which can only be a
whole formula, is written without parentheses.  A negative number is written in parentheses, like
the negation that it reads back as.
-/

namespace Formula

namespace Expr

/-- The text of a number in a formula. -/
def renderNum (v : Float) : String :=
  if Number.isNegative v then "(" ++ Number.render v ++ ")" else Number.render v

mutual

/-- The text of a tree. -/
def render : Expr → String
  | num v => renderNum v
  | var n => n
  | signed s x => "(" ++ s.symbol ++ x.render ++ ")"
  | arith op l r => "(" ++ l.render ++ " " ++ op.symbol ++ " " ++ r.render ++ ")"
  | compare op l r => "(" ++ l.render ++ " " ++ op.symbol ++ " " ++ r.render ++ ")"
  | choice c t e => c.render ++ " ? " ++ t.render ++ " : " ++ e.render
  | call name args => name ++ "(" ++ renderArgs args ++ ")"

/-- The texts of the arguments of a call, with a comma and a space between two of them. -/
def renderArgs : List Expr → String
  | [] => ""
  | [x] => x.render
  | x :: xs => x.render ++ ", " ++ renderArgs xs

end

end Expr

end Formula
