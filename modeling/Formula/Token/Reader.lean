import Formula.Text.Blank
import Formula.Text.Numeral
import Formula.Token

/-!
# Reading tokens

`Token.read` cuts a text into tokens from left to right.  Blanks separate tokens and are dropped.

* A number is a run of digits and points: `1.2.3` is one token, and whether it denotes a value is
  settled when the tree is built.  `π` and `ℯ` are numbers by themselves.
* A word is a letter and the letters and numerals that follow it.  The words `pi` and `e` are
  numbers, every other word of one letter is a variable, and a longer word is a function.
* A symbol is one character, or two for the comparisons that end in `=`.

A formula has one variable.  Reading stops at the first character that starts no token, and at
the first variable that differs from the one before it.
-/

namespace Formula

/-- The reasons for which a text is not a sequence of tokens. -/
inductive LexicalError where
  /-- The character at `pos` starts no token. -/
  | unexpectedChar (ch : Char) (pos : Nat)
  /-- The variable `second` follows the variable `first`. -/
  | secondVariable (first second : String)
deriving DecidableEq, Repr

/-- The wording of a lexical error. -/
def LexicalError.message : LexicalError → String
  | unexpectedChar ch pos =>
    "unexpected character '" ++ ch.toString ++ "' at position " ++ toString pos
  | secondVariable first second =>
    "multiple variables: '" ++ first ++ "' and '" ++ second ++
      "' (only one free variable is allowed)"

namespace Token

/-- A digit or a point. -/
def isNumberChar (c : Char) : Bool := c.isDigit || c == '.'

/-- The kind of the word `w`. -/
def wordKind (w : List Char) : Kind :=
  if w = ['e'] ∨ w = ['p', 'i'] then .number else if w.length = 1 then .var else .func

/-- The kind of the symbol that starts with the first character and may take in the second, and the
number of characters it takes beyond its first. -/
def symbol? : Char → Option Char → Option (Kind × Nat)
  | '+', _ => some (.arith .add, 0)
  | '-', _ => some (.arith .sub, 0)
  | '*', _ => some (.arith .mul, 0)
  | '/', _ => some (.arith .div, 0)
  | '^', _ => some (.arith .pow, 0)
  | ',', _ => some (.comma, 0)
  | '(', _ => some (.lparen, 0)
  | ')', _ => some (.rparen, 0)
  | '?', _ => some (.question, 0)
  | ':', _ => some (.colon, 0)
  | '<', some '=' => some (.compare .le, 1)
  | '<', _ => some (.compare .lt, 0)
  | '>', some '=' => some (.compare .ge, 1)
  | '>', _ => some (.compare .gt, 0)
  | '=', some '=' => some (.compare .eq, 1)
  | '!', some '=' => some (.compare .ne, 1)
  | _, _ => none

/-- The token that starts with `c`, with `rest` after it: its kind, and the number of characters it
takes from `rest`. -/
def lexeme? (c : Char) (rest : List Char) : Option (Kind × Nat) :=
  if isNumberChar c then some (.number, (rest.takeWhile isNumberChar).length)
  else if c = 'π' ∨ c = 'ℯ' then some (.number, 0)
  else if Text.isLetter c then
    let tail := rest.takeWhile Text.isWordChar
    some (wordKind (c :: tail), tail.length)
  else symbol? c rest.head?

/-- The variable of the formula once a token has been read, where `seen` is the variable before
it.  A second variable is an error. -/
def track (seen : Option String) (t : Token) : Except LexicalError (Option String) :=
  match t.kind, seen with
  | .var, none => .ok (some t.text)
  | .var, some first => if first = t.text then .ok seen else .error (.secondVariable first t.text)
  | _, _ => .ok seen

/-- The tokens of the text that starts at position `pos`, where `seen` is the variable read before
it. -/
def readFrom (seen : Option String) (pos : Nat) (text : List Char) :
    Except LexicalError (List Token) :=
  match text with
  | [] => .ok []
  | c :: rest =>
    if Text.isBlank c then readFrom seen (pos + 1) rest
    else
      match lexeme? c rest with
      | none => .error (.unexpectedChar c pos)
      | some (kind, n) => do
        let t : Token := ⟨kind, String.ofList (c :: rest.take n), pos⟩
        let seen ← track seen t
        let ts ← readFrom seen (pos + n + 1) (rest.drop n)
        return t :: ts
termination_by text.length
decreasing_by all_goals simp only [List.length_cons, List.length_drop]; omega

/-- The tokens of a text. -/
def read (text : String) : Except LexicalError (List Token) := readFrom none 0 text.toList

end Token

end Formula
