import Formula.Expr.Fold
import Formula.Expr.OfPostfix
import Formula.Expr.Vars
import Formula.Postfix
import Formula.Token.Reader

/-!
# Curves

A curve is a formula that has been compiled once so that it can be evaluated many times: its text
and its tree.

* `Expr.parse` reads the tree of a text: the tokens, their postfix order, the tree.
* `Curve.compile` also folds the constant parts of the tree, if asked to.
* `Curve.eval` evaluates the curve at a value of its variable.
-/

namespace Formula

/-- The reasons for which a text is not a formula, by the stage that finds them. -/
inductive CompileError where
  | lexical (e : LexicalError)
  | conditional (e : ConditionalError)
  | build (e : BuildError)
deriving DecidableEq, Repr

/-- The wording of an error in a formula. -/
def CompileError.message : CompileError → String
  | lexical e => "lex error: " ++ e.message
  | conditional e => "convert error: " ++ e.message
  | build e => "parse error: " ++ e.message

/-- The tree of a text. -/
def Expr.parse (source : String) : Except CompileError Expr := do
  let tokens ← (Token.read source).mapError CompileError.lexical
  let ordered ← (Postfix.ofTokens tokens).mapError CompileError.conditional
  (Expr.ofPostfix ordered).mapError CompileError.build

/-- A compiled formula. -/
structure Curve where
  source : String
  tree : Expr

namespace Curve

/-- The curve of a text, with its constant parts computed if `folding`. -/
def compile (folding : Bool) (source : String) : Except CompileError Curve := do
  let tree ← Expr.parse source
  return ⟨source, if folding then tree.fold else tree⟩

/-- The variable of a curve, if it has one. -/
def var? (c : Curve) : Option String := c.tree.vars.head?

/-- The value of the curve where its variable has the value `x`. -/
def eval (c : Curve) (x : Float) : Outcome :=
  match c.var? with
  | some name => c.tree.eval (Bindings.single name x)
  | none => c.tree.eval Bindings.none

end Curve

end Formula
