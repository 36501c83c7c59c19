import Formula.Number.Decimal

/-!
# Literals

The text of a number in a formula is a decimal number or the name of a constant: `pi` or `π`,
and `e` or `ℯ`.
-/

namespace Formula

namespace Number

/-- The ratio of a circle's circumference to its diameter. -/
def pi : Float := 3.141592653589793

/-- The base of the natural logarithm. -/
def e : Float := 2.718281828459045

/-- The value of a literal.  The names of constants are read in any case. -/
def literal? (text : String) : Option Float :=
  let word := text.toList.map Char.toLower
  if word = ['π'] ∨ word = ['p', 'i'] then some pi
  else if word = ['ℯ'] ∨ word = ['e'] then some e
  else read? text

end Number

end Formula
