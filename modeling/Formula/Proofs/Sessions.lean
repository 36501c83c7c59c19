import Formula.Proofs.Drawing
import Formula.Session

/-!
# What a session keeps

A session changes in three ways only: a curve takes the place of the old one and drops its scan, a
scan takes the place of the old one, or the scan moves on.  All else leaves it as it was.

* `Session.step_cases` is what one command does, from which the rest follows.
* `Session.step_of_isFailure` and **`Session.run_carriedOut`**: a command that fails leaves the
  session as it was, so that without the commands that fail the others are answered in the same way.
* `Session.Coherent` is the invariant: the scan of a session is a scan of its curve
  (`Session.Coherent.step`, `Session.Coherent.after`).  So every sample that is delivered has the
  outcome of the curve that the session then holds (`Session.outcome_of_mem_drawn`).
* **`Session.run_append_compile`**: after a new curve the answers do not depend on what went before.
-/

namespace Formula

namespace Reply

/-- The command could not be carried out. -/
def isFailure : Reply → Bool
  | .refused _ | .noCurve | .noScan => true
  | _ => false

/-- The samples that are delivered. -/
def drawn : Reply → List Sample
  | .sample s _ => s.toList
  | .samples s _ => s
  | _ => []

end Reply

namespace Session

variable {s : Session} {c : Command} {cs : List Command} {source : String} {k : Curve}

/-! ### One command -/

/-- A command that works on the curve and answers with an outcome leaves the session as it was. -/
theorem withCurve_outcome (s : Session) (f : Curve → Outcome) :
    (s.withCurve fun k => (s, .outcome (f k))).1 = s ∧
      (s.withCurve fun k => (s, .outcome (f k))).2.drawn = [] := by
  unfold withCurve
  cases s.curve <;> exact ⟨rfl, rfl⟩

/-- A command that draws from the scan moves it on, if there is one. -/
theorem withScan_cases (s : Session) {f : Scan → Scan × Reply}
    (hf : ∀ p, (∃ n, (f p).1 = p.seek n) ∧ (f p).2.isFailure = false ∧
      ∀ q ∈ (f p).2.drawn, q ∈ p.grid) :
    ((s.withScan f).1 = s ∧ (s.withScan f).2.drawn = []) ∨
      ∃ p n, s.scan = some p ∧ (s.withScan f).1 = { s with scan := some (p.seek n) } ∧
        (s.withScan f).2.isFailure = false ∧ ∀ q ∈ (s.withScan f).2.drawn, q ∈ p.grid := by
  cases hscan : s.scan with
  | none => exact .inl (by simp only [withScan, hscan, Reply.drawn, and_self])
  | some p =>
    obtain ⟨⟨n, hmoved⟩, hdone, hdrawn⟩ := hf p
    refine .inr ⟨p, n, rfl, ?_⟩
    simp only [withScan, hscan, hmoved, true_and]
    exact ⟨hdone, hdrawn⟩

/-- **What a command does.**  The session stays as it was, and no sample is delivered; or a curve is
compiled; or a scan is started; or samples are drawn from the scan. -/
theorem step_cases (s : Session) (c : Command) :
    ((s.step c).1 = s ∧ (s.step c).2.drawn = []) ∨
      (∃ source k, c = .compile source ∧ Curve.compile s.folding source = .ok k ∧
        s.step c = (⟨s.folding, some k, none⟩, .compiled k)) ∨
      (∃ k given step p, s.curve = some k ∧ Plot.scan k given step = .ok p ∧
        s.step c = ({ s with scan := some p }, .scanning p.length)) ∨
      ∃ p n, s.scan = some p ∧ (s.step c).1 = { s with scan := some (p.seek n) } ∧
        (s.step c).2.isFailure = false ∧ ∀ q ∈ (s.step c).2.drawn, q ∈ p.grid := by
  have hnth (n : Nat) (p : Scan) : (∃ m, (p.nth n).2 = p.seek m) ∧
      ∀ q ∈ (p.nth n).1.toList, q ∈ p.grid := by
    rw [Scan.nth_eq]
    exact ⟨⟨_, rfl⟩, fun q hq => List.mem_of_getElem? (Option.mem_toList.1 hq)⟩
  have htake (n : Nat) (p : Scan) : (∃ m, (p.take n).2 = p.seek m) ∧
      ∀ q ∈ (p.take n).1, q ∈ p.grid := by
    rw [Scan.take_eq]
    exact ⟨⟨_, rfl⟩, fun q hq => List.mem_of_mem_drop (List.mem_of_mem_take hq)⟩
  cases c with
  | compile source =>
    cases h : Curve.compile s.folding source with
    | error e => exact .inl (by simp only [step, h, Reply.drawn, and_self])
    | ok k => exact .inr (.inl ⟨source, k, rfl, h, by simp only [step, h]⟩)
  | eval x => exact .inl (withCurve_outcome s fun k => k.eval x)
  | evalWith b => exact .inl (withCurve_outcome s fun k => k.tree.eval b)
  | scan given step =>
    cases hcurve : s.curve with
    | none => exact .inl (by simp only [Session.step, withCurve, hcurve, Reply.drawn, and_self])
    | some k =>
      cases h : Plot.scan k given step with
      | error e =>
        exact .inl (by simp only [Session.step, withCurve, hcurve, h, Reply.drawn, and_self])
      | ok p =>
        exact .inr (.inr (.inl ⟨k, given, step, p, rfl, h,
          by simp only [Session.step, withCurve, hcurve, h]⟩))
  | next =>
    refine (withScan_cases s fun p => ?_).imp_right fun h => .inr (.inr h)
    exact ⟨(hnth 0 p).1, rfl, (hnth 0 p).2⟩
  | take n =>
    refine (withScan_cases s fun p => ?_).imp_right fun h => .inr (.inr h)
    exact ⟨(htake n p).1, rfl, (htake n p).2⟩
  | nth n =>
    refine (withScan_cases s fun p => ?_).imp_right fun h => .inr (.inr h)
    exact ⟨(hnth n p).1, rfl, (hnth n p).2⟩

/-- **A command that fails leaves the session as it was.** -/
theorem step_of_isFailure (h : (s.step c).2.isFailure = true) : (s.step c).1 = s := by
  obtain ⟨hsame, -⟩ | ⟨source, k, -, -, hstep⟩ | ⟨k, given, step, p, -, -, hstep⟩ |
    ⟨p, n, -, -, hdone, -⟩ := step_cases s c
  · exact hsame
  · rw [hstep] at h
    cases h
  · rw [hstep] at h
    cases h
  · rw [hdone] at h
    cases h

theorem folding_step (s : Session) (c : Command) : (s.step c).1.folding = s.folding := by
  obtain ⟨hsame, -⟩ | ⟨source, k, -, -, hstep⟩ | ⟨k, given, step, p, -, -, hstep⟩ |
    ⟨p, n, -, hmoved, -⟩ := step_cases s c
  · rw [hsame]
  · rw [hstep]
  · rw [hstep]
  · rw [hmoved]

/-! ### Commands in turn -/

/-- The session after commands. -/
def after (s : Session) : List Command → Session
  | [] => s
  | c :: cs => (s.step c).1.after cs

theorem run_append (s : Session) (cs ds : List Command) :
    s.run (cs ++ ds) = s.run cs ++ (s.after cs).run ds := by
  induction cs generalizing s with
  | nil => rfl
  | cons c cs ih => simp only [List.cons_append, run, after, ih]

theorem folding_after (s : Session) (cs : List Command) : (s.after cs).folding = s.folding := by
  induction cs generalizing s with
  | nil => rfl
  | cons c cs ih => exact (ih _).trans (folding_step s c)

/-- The commands that do not fail. -/
def carriedOut (s : Session) : List Command → List Command
  | [] => []
  | c :: cs =>
    if (s.step c).2.isFailure then s.carriedOut cs else c :: (s.step c).1.carriedOut cs

/-- **Commands that fail might as well not have been given.**  Without them the others have the same
answers, and the session ends the same. -/
theorem run_carriedOut (s : Session) (cs : List Command) :
    s.run (s.carriedOut cs) = (s.run cs).filter (!·.isFailure) ∧
      s.after (s.carriedOut cs) = s.after cs := by
  induction cs generalizing s with
  | nil => exact ⟨rfl, rfl⟩
  | cons c cs ih =>
    cases h : (s.step c).2.isFailure with
    | true =>
      have hsame := step_of_isFailure h
      simp only [carriedOut, run, after, h, hsame, ↓reduceIte, List.filter_cons, Bool.not_true,
        Bool.false_eq_true]
      exact ih s
    | false =>
      simp only [carriedOut, run, after, h, ↓reduceIte, List.filter_cons, Bool.not_false,
        Bool.false_eq_true, List.cons.injEq, true_and]
      exact ih _

/-! ### The scan and the curve -/

/-- The scan of a session is a scan of its curve. -/
def Coherent (s : Session) : Prop := ∀ p, s.scan = some p → s.curve = some p.curve

theorem coherent_empty (folding : Bool) : (empty folding).Coherent := nofun

/-- A scan that a plot starts is a scan of its curve. -/
theorem curve_of_scan {given : Interval.Given} {step : Float} {p : Scan}
    (h : Plot.scan k given step = .ok p) : p.curve = k := by
  unfold Plot.scan at h
  cases hi : given.interval with
  | error e =>
    rw [hi] at h
    cases h
  | ok i =>
    rw [hi] at h
    cases hp : Scan.start k i step with
    | error e =>
      simp only [bind, Except.bind, Except.mapError, hp] at h
      cases h
    | ok q =>
      simp only [bind, Except.bind, Except.mapError, hp] at h
      cases h
      exact (Scan.of_start hp).1

/-- **A command keeps the scan a scan of the curve.** -/
theorem Coherent.step (h : s.Coherent) (c : Command) : (s.step c).1.Coherent := by
  obtain ⟨hsame, -⟩ | ⟨source, k, -, -, hstep⟩ | ⟨k, given, step, p, hcurve, hscan, hstep⟩ |
    ⟨p, n, hscan, hmoved, -⟩ := step_cases s c
  · rwa [hsame]
  · rw [hstep]
    exact nofun
  · rw [hstep]
    rintro q ⟨⟩
    rw [curve_of_scan hscan]
    exact hcurve
  · rw [hmoved]
    rintro q ⟨⟩
    exact h p hscan

/-- **The scan is a scan of the curve after all commands.** -/
theorem Coherent.after (h : s.Coherent) (cs : List Command) : (s.after cs).Coherent := by
  induction cs generalizing s with
  | nil => exact h
  | cons c cs ih => exact ih (h.step c)

/-- The samples that a command delivers have the outcomes of the curve. -/
theorem Coherent.outcome_of_mem_drawn (h : s.Coherent) {q : Sample}
    (hq : q ∈ (s.step c).2.drawn) : ∃ k, s.curve = some k ∧ q.y = k.eval q.x := by
  obtain ⟨-, hnone⟩ | ⟨source, k, -, -, hstep⟩ | ⟨k, given, step, p, -, -, hstep⟩ |
    ⟨p, n, hscan, -, -, hgrid⟩ := step_cases s c
  · rw [hnone] at hq
    cases hq
  · rw [hstep] at hq
    cases hq
  · rw [hstep] at hq
    cases hq
  · obtain ⟨i, -, rfl⟩ := List.mem_map.1 (hgrid q hq)
    exact ⟨p.curve, h p hscan, rfl⟩

/-- **Samples belong to the curve**, whatever a session has been asked before. -/
theorem outcome_of_mem_drawn (folding : Bool) (cs : List Command) (c : Command) {q : Sample}
    (hq : q ∈ (((empty folding).after cs).step c).2.drawn) :
    ∃ k, ((empty folding).after cs).curve = some k ∧ q.y = k.eval q.x :=
  ((coherent_empty folding).after cs).outcome_of_mem_drawn hq

/-- **A new curve starts the session anew.**  What is answered from there on does not depend on what
went before. -/
theorem run_append_compile (h : Curve.compile s.folding source = .ok k) (cs ds : List Command) :
    s.run (cs ++ .compile source :: ds) =
      s.run cs ++ (empty s.folding).run (.compile source :: ds) := by
  have hstep (s' : Session) (hfolding : s'.folding = s.folding) :
      s'.step (.compile source) = (⟨s.folding, some k, none⟩, .compiled k) := by
    simp only [step, hfolding, h]
  rw [run_append]
  simp only [run, hstep _ (folding_after s cs), hstep (empty s.folding) rfl]

end Session

end Formula
