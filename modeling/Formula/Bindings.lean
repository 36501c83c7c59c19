/-!
# Bindings

Bindings give values to the names of variables.  They can hold nothing, a single variable, or a
list of pairs in which either the first or the last pair of a name counts.
-/

namespace Formula

/-- The values of variables, by name. -/
abbrev Bindings := String → Option Float

namespace Bindings

/-- No variable has a value. -/
def none : Bindings := fun _ => Option.none

/-- One variable has a value. -/
def single (name : String) (value : Float) : Bindings :=
  fun n => if n = name then some value else Option.none

/-- Of the pairs with the same name the first counts. -/
def ofFirst (pairs : List (String × Float)) : Bindings := fun n => pairs.lookup n

/-- Of the pairs with the same name the last counts. -/
def ofLast (pairs : List (String × Float)) : Bindings := ofFirst pairs.reverse

end Bindings

end Formula
