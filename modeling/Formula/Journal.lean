import Formula.Expr.Printer
import Formula.Scan

/-!
# Journals

A journal is the account of what happens while a formula is compiled and its curve is drawn.
Compiling writes a line after each stage that succeeds (`Curve.journal`), and drawing writes one
for each sample without a value, where the pen is lifted (`Scan.journal`).
-/

namespace Formula

/-- A line of a journal. -/
inductive Entry where
  /-- A formula is about to be compiled. -/
  | compiling (source : String)
  /-- The formula has `count` tokens. -/
  | counted (count : Nat)
  /-- The tokens of the formula in postfix order. -/
  | ordered (tokens : List Token)
  /-- The tree of the formula. -/
  | built (e : Expr)
  /-- The pen is lifted at `x`, where the curve has no value. -/
  | lifting (x : Float) (e : EvalError)

/-- The text of a line, with its level in front. -/
def Entry.line : Entry → String
  | compiling source => "DEBUG compiling `" ++ source ++ "`"
  | counted count => "DEBUG " ++ toString count ++ " tokens"
  | ordered tokens => "DEBUG postfix: " ++ " ".intercalate (tokens.map Token.text)
  | built e => "DEBUG tree: " ++ e.render
  | lifting x e => "TRACE lifting pen at x=" ++ Number.render x ++ ": " ++ e.message

/-- The journal of compiling a formula. -/
def Curve.journal (folding : Bool) (source : String) : List Entry :=
  .compiling source ::
    match Token.read source with
    | .error _ => []
    | .ok tokens =>
      .counted tokens.length ::
        match Postfix.ofTokens tokens with
        | .error _ => []
        | .ok tokens =>
          .ordered tokens ::
            match Expr.ofPostfix tokens with
            | .error _ => []
            | .ok e => [.built (if folding then e.fold else e)]

/-- The journal of drawing samples. -/
def Scan.journal (samples : List Sample) : List Entry :=
  samples.filterMap fun s =>
    match s.y with
    | .ok _ => none
    | .error e => some (.lifting s.x e)

end Formula
