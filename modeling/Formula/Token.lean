import Formula.Operator

/-!
# Tokens

A formula is read as a sequence of tokens.  A token has a kind, the text that was read for it and
the position, counted in characters, at which it starts.

The lexer produces every kind but two: a *sign* is an arithmetic `+` or `-` that stands in front of
an operand and is told apart later, and a *choice* closes the three parts of a conditional once they
are in postfix order.
-/

namespace Formula

/-- The kind of a token. -/
inductive Token.Kind where
  /-- A number, or one of the named constants. -/
  | number
  /-- A name of one letter. -/
  | var
  /-- A name of several characters. -/
  | func
  | arith (op : Arith)
  | sign (s : Sign)
  | compare (op : Comparison)
  | lparen
  | rparen
  | comma
  | question
  | colon
  /-- The mark that follows the three parts of a conditional in postfix order. -/
  | choice
deriving DecidableEq, Repr

/-- A token of a formula. -/
structure Token where
  kind : Token.Kind
  text : String
  pos : Nat
deriving DecidableEq, Repr

end Formula
