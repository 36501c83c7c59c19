import Formula.Number.Shortest

/-!
# Outcomes

The outcome of evaluating a formula is a number, or the reason for which it has no value.
-/

namespace Formula

/-- The reasons for which a formula has no value. -/
inductive EvalError where
  /-- The variable has no value. -/
  | unbound (name : String)
  | divisionByZero
  /-- The square root of the negative number `x` was asked for. -/
  | negativeSqrt (x : Float)
  /-- The logarithm of `x`, which is not positive, was asked for. -/
  | nonPositiveLog (x : Float)
  /-- There is no function of that name. -/
  | unknownFunction (name : String)
  /-- The function, which has one argument, was called with `got` of them. -/
  | arity (name : String) (got : Nat)
deriving DecidableEq, Repr

/-- The wording of an error in evaluating a formula. -/
def EvalError.message : EvalError → String
  | unbound name => "undefined variable: " ++ name
  | divisionByZero => "division by zero"
  | negativeSqrt x => "square root of negative number: " ++ Number.render x
  | nonPositiveLog x => "logarithm of non-positive number: " ++ Number.render x
  | unknownFunction name => "unknown function: " ++ name
  | arity name got =>
    "function " ++ name ++ " expects 1 argument(s), got " ++ toString got

/-- A value, or the reason for which there is none. -/
abbrev Outcome := Except EvalError Float

end Formula
