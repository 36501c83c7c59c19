import Formula.Plot

/-!
# Sessions

A session holds one curve and one scan of it, both of which may be missing, and answers commands.
A command that fails leaves the session as it was, and a new curve drops the scan of the old one.
-/

namespace Formula

/-- A curve and a scan of it. -/
structure Session where
  folding : Bool
  curve : Option Curve
  scan : Option Scan

/-- What a session can be asked to do. -/
inductive Command where
  | compile (source : String)
  /-- Evaluate the curve where its variable has the value `x`. -/
  | eval (x : Float)
  /-- Evaluate the curve under bindings. -/
  | evalWith (b : Bindings)
  | scan (given : Interval.Given) (step : Float)
  | next
  | take (n : Nat)
  /-- Pass over `n` samples and draw the one after them. -/
  | nth (n : Nat)

/-- What a session answers. -/
inductive Reply where
  | compiled (c : Curve)
  | outcome (y : Outcome)
  | scanning (length : Nat)
  /-- The formula, the interval or the step is refused. -/
  | refused (e : PlotError)
  | sample (s : Option Sample) (left : Nat)
  | samples (s : List Sample) (left : Nat)
  /-- There is no curve to work with. -/
  | noCurve
  /-- There is no scan to draw from. -/
  | noScan

namespace Session

/-- A session without a curve. -/
def empty (folding : Bool) : Session := ⟨folding, none, none⟩

/-- The answer to a command that needs a curve. -/
def withCurve (s : Session) (f : Curve → Session × Reply) : Session × Reply :=
  match s.curve with
  | none => (s, .noCurve)
  | some c => f c

/-- The answer to a command that needs a scan, which `f` may move. -/
def withScan (s : Session) (f : Scan → Scan × Reply) : Session × Reply :=
  match s.scan with
  | none => (s, .noScan)
  | some p =>
    let (p, r) := f p
    ({ s with scan := some p }, r)

/-- The session after a command, and its answer. -/
def step (s : Session) : Command → Session × Reply
  | .compile source =>
    match Curve.compile s.folding source with
    | .ok c => (⟨s.folding, some c, none⟩, .compiled c)
    | .error e => (s, .refused (.compile e))
  | .eval x => s.withCurve fun c => (s, .outcome (c.eval x))
  | .evalWith b => s.withCurve fun c => (s, .outcome (c.tree.eval b))
  | .scan given step => s.withCurve fun c =>
    match Plot.scan c given step with
    | .ok p => ({ s with scan := some p }, .scanning p.length)
    | .error e => (s, .refused e)
  | .next => s.withScan fun p =>
    let (q, p) := p.nth 0
    (p, .sample q p.remaining)
  | .take n => s.withScan fun p =>
    let (qs, p) := p.take n
    (p, .samples qs p.remaining)
  | .nth n => s.withScan fun p =>
    let (q, p) := p.nth n
    (p, .sample q p.remaining)

/-- The answers of a session to commands in turn. -/
def run (s : Session) : List Command → List Reply
  | [] => []
  | c :: cs =>
    let (s, r) := s.step c
    r :: run s cs

end Session

end Formula
