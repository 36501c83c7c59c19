import Formula.Curve
import Formula.Interval

/-!
# Scans

A scan evaluates a curve at `low`, `low + step`, `low + 2 * step`, … up to the end of an interval.
Each point is computed from its number, so that rounding does not add up along the scan.  A sample
without a value is reported like the others and does not end the scan.

* `Number.floor` is a number rounded down.
* `Scan.start` checks the step and settles the number of samples.
* `Scan.next?` is the sample at the position of the scan, and the scan one position further.
* `Scan.take` and `Scan.nth` repeat that.
* `Scan.skip_eq`: passing over samples moves the position alone, and not beyond the end.
-/

namespace Formula

/-- The largest whole number that is not above a number.  What is infinite or NaN stays as it is. -/
def Number.floor (v : Float) : Float :=
  match v.toModel.unpack with
  | .finite s m q _ =>
    -- with an exponent that is not negative there is nothing behind the point
    if 0 ≤ q then v else .ofModel (.ofInt (s.apply m / (Nat.pow 2 (-q).toNat : Nat)))
  | _ => v

/-- A point of a scan: the value of the variable, and the outcome of evaluating the curve there. -/
structure Sample where
  x : Float
  y : Outcome

/-- A scan and its position in it.  The samples before `position` have been delivered. -/
structure Scan where
  curve : Curve
  low : Float
  step : Float
  length : Nat
  position : Nat
  position_le_length : position ≤ length

/-- The reasons for which an interval cannot be scanned. -/
inductive ScanError where
  /-- The step is not a finite positive number. -/
  | badStep (step : Float)
  /-- The interval has more points than a scan can have. -/
  | tooManySamples (width step : Float)
deriving DecidableEq, Repr

namespace Scan

/-- The number of samples that no scan exceeds. -/
def maxSamples : Nat := 4294967295

end Scan

/-- The wording of an error in starting a scan. -/
def ScanError.message : ScanError → String
  | badStep step => "scan step must be finite and positive, got " ++ Number.render step
  | tooManySamples width step =>
    "scan of width " ++ Number.render width ++ " with step " ++ Number.render step ++
      " exceeds " ++ toString Scan.maxSamples ++ " samples"

namespace Scan

/-- The number of steps that fit into an interval, before it is rounded down.  The addition makes up
for rounding, so that `[0;1]` with the step `0.1` still ends at `1`. -/
def stepCount (i : Interval) (step : Float) : Float := i.width / step + 1e-9

/-- The word after `n`, if there is one. -/
def successor? (n : UInt64) : Option UInt64 := if n + 1 = 0 then none else some (n + 1)

/-- The scan of a curve over an interval, at its first position.  There is one more sample than
there are segments between samples. -/
def start (curve : Curve) (i : Interval) (step : Float) : Except ScanError Scan :=
  if !step.isFinite || step ≤ 0.0 then .error (.badStep step)
  else
    let segments := Number.floor (stepCount i step)
    if !segments.isFinite || segments ≥ maxSamples.toUInt64.toFloat then
      .error (.tooManySamples i.width step)
    else
      match successor? segments.toUInt64 with
      | none => .error (.tooManySamples i.width step)
      | some length => .ok ⟨curve, i.low, step, length.toNat, 0, Nat.zero_le _⟩

/-- The value of the variable at position `n`. -/
def point (s : Scan) (n : Nat) : Float := s.low + n.toUInt64.toFloat * s.step

/-- The sample at position `n`. -/
def sample (s : Scan) (n : Nat) : Sample := ⟨s.point n, s.curve.eval (s.point n)⟩

/-- The number of samples that are still to come. -/
def remaining (s : Scan) : Nat := s.length - s.position

/-- The scan one position further, if it is not at its end. -/
def advance? (s : Scan) : Option Scan :=
  if h : s.position < s.length then
    some { s with position := s.position + 1, position_le_length := h }
  else none

theorem advance?_eq_none_iff {s : Scan} : s.advance? = none ↔ s.remaining = 0 := by
  have := s.position_le_length
  simp only [advance?, remaining]
  split <;> simp <;> omega

/-- The next sample and the scan after it; none at the end. -/
def next? (s : Scan) : Option (Sample × Scan) := s.advance?.map (s.sample s.position, ·)

/-- The next `n` samples, or fewer at the end, and the scan after them. -/
def take : Nat → Scan → List Sample × Scan
  | 0, s => ([], s)
  | n + 1, s =>
    match s.next? with
    | none => ([], s)
    | some (p, s) =>
      let (ps, s) := take n s
      (p :: ps, s)

/-- The scan `n` positions further, or at its end. -/
def skip : Nat → Scan → Scan
  | 0, s => s
  | n + 1, s =>
    match s.advance? with
    | none => s
    | some s => skip n s

/-- Drawing samples moves a scan as far as passing over them. -/
theorem snd_take (n : Nat) (s : Scan) : (take n s).2 = skip n s := by
  induction n generalizing s with
  | zero => rfl
  | succ n ih =>
    simp only [take, skip, next?]
    cases s.advance? with
    | none => rfl
    | some s => exact ih s

/-- Passing over samples moves the position alone, and not beyond the end. -/
theorem skip_eq (n : Nat) (s : Scan) :
    skip n s = { s with
      position := min (s.position + n) s.length
      position_le_length := Nat.min_le_right .. } := by
  induction n generalizing s with
  | zero => simp only [skip, Nat.add_zero, Nat.min_eq_left s.position_le_length]
  | succ n ih =>
    have hle := s.position_le_length
    simp only [skip]
    split
    · rename_i h
      rw [advance?_eq_none_iff, remaining] at h
      cases s
      simp only [mk.injEq, true_and] at *
      omega
    · rename_i h
      unfold advance? at h
      split at h
      · cases h
        rw [ih]
        simp only [mk.injEq, true_and]
        omega
      · cases h

/-- The sample that `n` others precede and the scan after it; without such a sample, the scan at its
end. -/
def nth (n : Nat) (s : Scan) : Option Sample × Scan :=
  let s := s.skip n
  match s.next? with
  | none => (none, s)
  | some (p, s) => (some p, s)

end Scan

end Formula
