/-!
# Operators

The three families of operators of a formula and the symbols that stand for them: a sign in
front of one operand, and arithmetic and comparison between two.
-/

namespace Formula

/-- A sign in front of an operand. -/
inductive Sign where
  | plus
  | minus
deriving DecidableEq, Repr

/-- An arithmetic operator between two operands. -/
inductive Arith where
  | add
  | sub
  | mul
  | div
  | pow
deriving DecidableEq, Repr

/-- A comparison of two operands. -/
inductive Comparison where
  | lt
  | gt
  | le
  | ge
  | eq
  | ne
deriving DecidableEq, Repr

/-- The symbol of a sign. -/
def Sign.symbol : Sign → String
  | plus => "+"
  | minus => "-"

/-- The operator that is written like a sign. -/
def Sign.operator : Sign → Arith
  | plus => .add
  | minus => .sub

/-- The symbol of an arithmetic operator. -/
def Arith.symbol : Arith → String
  | add => "+"
  | sub => "-"
  | mul => "*"
  | div => "/"
  | pow => "^"

/-- The symbol of a comparison. -/
def Comparison.symbol : Comparison → String
  | lt => "<"
  | gt => ">"
  | le => "<="
  | ge => ">="
  | eq => "=="
  | ne => "!="

end Formula
