/-!
# Reading decimal numbers

A decimal number is written as an optional sign, digits with at most one point among them, and
an optional power of ten (`-1.5e3`), or as one of the words `inf`, `infinity` and `nan` in any
case.  `Number.read?` reads such a text, with nothing left over, as the nearest `Float`; of two
equally near it takes the even one.

* `Decimal.toFloat` is the value of digits and a power of ten.
* `Number.unsigned?` reads the digits, the point and the power of ten.
-/

namespace Formula

/-- The decimal number `digits * 10 ^ exponent`. -/
structure Decimal where
  digits : Nat
  exponent : Int
deriving DecidableEq, Repr

/-- The `Float` nearest to a decimal number; a half goes to the even neighbour. -/
def Decimal.toFloat (d : Decimal) : Float :=
  .ofModel (.ofScientific d.digits d.exponent)

namespace Number

/-- The natural number that a list of digits spells. -/
def ofDigits (ds : List Char) : Nat := Nat.ofDigitChars 10 ds 0

/-- The natural number that a non-empty list of digits, and nothing else, spells. -/
def natural? (cs : List Char) : Option Nat :=
  if cs ≠ [] ∧ cs.all Char.isDigit then some (ofDigits cs) else none

/-- The power of ten that the end of a number names: none written, or `e` and an integer. -/
def exponent? : List Char → Option Int
  | [] => some 0
  | c :: cs =>
    if c = 'e' ∨ c = 'E' then
      match cs with
      | '-' :: ds => (natural? ds).map fun n => -(n : Int)
      | '+' :: ds => (natural? ds).map fun n => (n : Int)
      | ds => (natural? ds).map fun n => (n : Int)
    else none

/-- A decimal number of the digits `whole` before the point and `fraction` after it, with `rest`
naming the power of ten.  There is a digit on one side of the point at least. -/
def assemble? (whole fraction rest : List Char) : Option Decimal :=
  if whole ++ fraction = [] then none
  else (exponent? rest).map fun e => ⟨ofDigits (whole ++ fraction), e - fraction.length⟩

/-- The decimal number without a sign that a text spells. -/
def unsigned? (cs : List Char) : Option Decimal :=
  let whole := cs.takeWhile Char.isDigit
  match cs.dropWhile Char.isDigit with
  | '.' :: rest =>
    assemble? whole (rest.takeWhile Char.isDigit) (rest.dropWhile Char.isDigit)
  | rest => assemble? whole [] rest

/-- What is cut off the front of a list ends where the condition first fails. -/
theorem span_append {α : Type} {p : α → Bool} {cs rest : List α} (h : ∀ c ∈ cs, p c = true)
    (hrest : ∀ c ∈ rest.head?, p c = false) :
    (cs ++ rest).takeWhile p = cs ∧ (cs ++ rest).dropWhile p = rest := by
  rw [List.takeWhile_append_of_pos h, List.dropWhile_append_of_pos h]
  cases rest with
  | nil => simp
  | cons c rest => simp [hrest c rfl]

/-- A whole number is read as its digits. -/
theorem unsigned?_of_digits {cs : List Char} (hne : cs ≠ []) (h : ∀ c ∈ cs, c.isDigit = true) :
    unsigned? cs = some ⟨ofDigits cs, 0⟩ := by
  obtain ⟨hwhole, hrest⟩ := @span_append _ _ _ [] h (by simp)
  rw [List.append_nil] at hwhole hrest
  simp [unsigned?, hwhole, hrest, assemble?, exponent?, hne]

/-- A decimal fraction is read as its digits, scaled by the number of those after the point. -/
theorem unsigned?_of_fraction {cs ds : List Char} (hne : cs ≠ [])
    (hcs : ∀ c ∈ cs, c.isDigit = true) (hds : ∀ c ∈ ds, c.isDigit = true) :
    unsigned? (cs ++ '.' :: ds) = some ⟨ofDigits (cs ++ ds), -ds.length⟩ := by
  obtain ⟨hwhole, hrest⟩ := @span_append _ _ _ ('.' :: ds) hcs (by simp)
  obtain ⟨hfraction, hend⟩ := @span_append _ _ _ [] hds (by simp)
  rw [List.append_nil] at hfraction hend
  simp [unsigned?, hwhole, hrest, hfraction, hend, assemble?, exponent?, hne]

/-- The value without a sign that a text spells: a decimal number, or a word for one of the
values that no digits denote. -/
def magnitude? (cs : List Char) : Option Float :=
  match unsigned? cs with
  | some d => some d.toFloat
  | none =>
    let word := cs.map Char.toLower
    if word = "inf".toList ∨ word = "infinity".toList then some (1.0 / 0.0)
    else if word = "nan".toList then some (0.0 / 0.0)
    else none

/-- The `Float` that a text spells. -/
def read? (text : String) : Option Float :=
  match text.toList with
  | '-' :: cs => (magnitude? cs).map fun v => -v
  | '+' :: cs => magnitude? cs
  | cs => magnitude? cs

end Number

end Formula
