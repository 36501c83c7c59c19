import Formula.Journal

/-!
# Plots

A plot starts from texts and numbers as they are given: a formula, an interval in one of three
forms, and a step.  `Plot.start` takes them to a scan, and `Plot.journal` is the journal of a plot
of which some samples are drawn.
-/

namespace Formula

/-- An interval as it is given. -/
inductive Interval.Given where
  /-- A text to be read. -/
  | text (s : String)
  /-- Bounds to be checked. -/
  | bounds (low high : Float)
  /-- Bounds that are taken as they are. -/
  | unchecked (low high : Float)

/-- The interval that is given. -/
def Interval.Given.interval : Given → Except IntervalError Interval
  | text s => read s
  | bounds low high => make low high
  | unchecked low high => .ok ⟨low, high⟩

/-- The reasons for which a plot cannot start. -/
inductive PlotError where
  | compile (e : CompileError)
  | interval (e : IntervalError)
  | scan (e : ScanError)
deriving DecidableEq, Repr

namespace Plot

/-- The scan of a curve over the interval that is given, which is read before the step is looked
at. -/
def scan (curve : Curve) (given : Interval.Given) (step : Float) : Except PlotError Scan := do
  let i ← given.interval.mapError .interval
  (Scan.start curve i step).mapError .scan

/-- The scan of a formula, which is compiled before the interval is read. -/
def start (folding : Bool) (source : String) (given : Interval.Given) (step : Float) :
    Except PlotError Scan := do
  let curve ← (Curve.compile folding source).mapError .compile
  scan curve given step

/-- The journal of a plot of which the first `count` samples are drawn. -/
def journal (folding : Bool) (source : String) (given : Interval.Given) (step : Float)
    (count : Nat) : List Entry :=
  Curve.journal folding source ++
    match start folding source given step with
    | .error _ => []
    | .ok s => Scan.journal (s.take count).1

end Plot

end Formula
