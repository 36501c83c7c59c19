import Formula.Number.Shortest
import Formula.Text.Blank

/-!
# Intervals

An interval is a closed range of values of the variable.  `Interval.make` checks its bounds, and
`Interval.read` reads it from a text such as `[-1; 1]`, in which the two brackets can be missing,
but only both, and blanks are free around the brackets and the bounds.
-/

namespace Formula

/-- The reasons for which there is no interval. -/
inductive IntervalError where
  /-- The text does not have the form of an interval. -/
  | malformed (text : String)
  /-- The bound is not a finite number. -/
  | badBound (text : String)
  /-- The lower bound exceeds the upper bound. -/
  | reversed (low high : Float)
deriving DecidableEq, Repr

/-- The wording of an error in an interval. -/
def IntervalError.message : IntervalError → String
  | malformed text => "interval must look like \"[from;to]\", got \"" ++ text ++ "\""
  | badBound text => "invalid interval bound \"" ++ text ++ "\""
  | reversed low high =>
    "interval start " ++ Number.render low ++ " is greater than its end " ++ Number.render high

/-- A closed range of numbers. -/
structure Interval where
  low : Float
  high : Float
deriving DecidableEq, Repr

namespace Interval

/-- The interval with these bounds, which have to be finite and in order. -/
def make (low high : Float) : Except IntervalError Interval :=
  if !low.isFinite then .error (.badBound (Number.render low))
  else if !high.isFinite then .error (.badBound (Number.render high))
  else if low > high then .error (.reversed low high)
  else .ok ⟨low, high⟩

/-- The distance of the bounds. -/
def width (i : Interval) : Float := i.high - i.low

/-- The step that cuts the interval into `segments` parts of equal width; none count as one. -/
def stepFor (i : Interval) (segments : UInt64) : Float := i.width / (max segments 1).toFloat

/-- The text between a pair of brackets, or the whole text if it has no such pair. -/
def unbracket (cs : List Char) : List Char :=
  match cs with
  | '[' :: rest => if rest.getLast? = some ']' then rest.dropLast else cs
  | _ => cs

/-- The value of a bound, with blanks around it. -/
def readBound (cs : List Char) : Except IntervalError Float :=
  let text := String.ofList (Text.trim cs)
  match Number.read? text with
  | some v => .ok v
  | none => .error (.badBound text)

/-- The interval that a text denotes. -/
def read (text : String) : Except IntervalError Interval :=
  let inner := unbracket (Text.trim text.toList)
  match inner.dropWhile (· ≠ ';') with
  | [] => .error (.malformed text)
  | _ :: rest => do
    let low ← readBound (inner.takeWhile (· ≠ ';'))
    let high ← readBound rest
    make low high

end Interval

end Formula
