import Formula.Outcome

/-!
# Elementary functions

The functions that a formula can call, each of one real argument.  `Elementary.find?` finds a
function by its name, in any case; the natural logarithm has two names.  `Elementary.apply`
refuses an argument for which the function has no real value.
-/

namespace Formula

/-- A function that a formula can call. -/
inductive Elementary where
  | sin
  | cos
  | tan
  | asin
  | acos
  | atan
  | exp
  | abs
  | sqrt
  | log
deriving DecidableEq, Repr

namespace Elementary

/-- The names of the functions, in lower case. -/
def table : List (String × Elementary) :=
  [("sin", sin), ("cos", cos), ("tan", tan), ("asin", asin), ("acos", acos), ("atan", atan),
   ("exp", exp), ("abs", abs), ("sqrt", sqrt), ("log", log), ("ln", log)]

/-- The function of a name, which may be written in any case. -/
def find? (name : String) : Option Elementary := table.lookup (name.map Char.toLower)

/-- The value of the function at `x`. -/
def apply (f : Elementary) (x : Float) : Outcome :=
  match f with
  | sin => .ok x.sin
  | cos => .ok x.cos
  | tan => .ok x.tan
  | asin => .ok x.asin
  | acos => .ok x.acos
  | atan => .ok x.atan
  | exp => .ok x.exp
  | abs => .ok x.abs
  | sqrt => if x < 0.0 then .error (.negativeSqrt x) else .ok x.sqrt
  | log => if x ≤ 0.0 then .error (.nonPositiveLog x) else .ok x.log

end Elementary

end Formula
