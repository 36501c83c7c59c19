import Formula.Proofs.Evaluating

/-!
# What an outcome depends on

Evaluating a tree stops at the first variable without a value that it meets.  Until then it has not
looked at what the other variables lack, so that more bindings leave its outcome as it is, unless
they give a value to the very variable that was reported.

* `Bindings.Le` says that bindings extend others, and `Outcome.Refines` what can become of an
  outcome then.
* `Outcome.Refines.bind`: outcomes are refined step by step.
* `Expr.eval_refines`: an outcome under some bindings is refined under bindings that extend them.
* **`Expr.eval_dependence`**: the variable that is reported is one of the tree and has no value;
  other outcomes stay as they are when bindings are added; and the outcome depends on the variables
  of the tree alone.
-/

namespace Formula

/-- The bindings `b'` extend `b`: they give the same values, and maybe more. -/
def Bindings.Le (b b' : Bindings) : Prop := ∀ n v, b n = some v → b' n = some v

namespace Outcome

/-- The outcome `y'` is the outcome `y`, unless `y` reports a variable that has a value under
`b`. -/
def Refines (b : Bindings) (y y' : Outcome) : Prop :=
  y' = y ∨ ∃ n, y = .error (.unbound n) ∧ b n ≠ none

variable {b : Bindings} {y y' : Outcome} {f g : Float → Outcome}

@[refl]
theorem Refines.refl (y : Outcome) : Refines b y y := .inl rfl

/-- What goes on with the value of a refined outcome is refined if it is so for each value. -/
theorem Refines.bind (h : Refines b y y') (hf : ∀ v, Refines b (f v) (g v)) :
    Refines b (y >>= f) (y' >>= g) := by
  obtain rfl | ⟨n, rfl, hn⟩ := h
  · cases y' with
    | ok v => exact hf v
    | error err => exact .refl _
  · exact .inr ⟨n, rfl, hn⟩

end Outcome

namespace Expr

open Outcome (Refines)

variable {b b' : Bindings}

/-- A call asks for its function and counts its arguments first, whatever the bindings are. -/
theorem eval_call_refines (name : String) {args : List Expr}
    (h : ∀ x ∈ args, Refines b' (eval b x) (eval b' x)) :
    Refines b' (eval b (call name args)) (eval b' (call name args)) := by
  obtain _ | ⟨x, _ | ⟨y, args⟩⟩ := args
  · exact .refl _
  · simp only [eval]
    cases Elementary.find? name with
    | none => exact .refl _
    | some f => exact (h x List.mem_cons_self).bind fun v => .refl _
  · exact .refl _

/-- **More bindings refine the outcome**: it stays, unless the variable that it reports now has a
value. -/
theorem eval_refines (h : Bindings.Le b b') (e : Expr) : Refines b' (eval b e) (eval b' e) := by
  induction e with
  | num v => exact .refl _
  | var n =>
    simp only [eval]
    cases hb : b n with
    | some v => rw [h n v hb]
    | none =>
      cases hb' : b' n with
      | some v => exact .inr ⟨n, rfl, by simp [hb']⟩
      | none => exact .refl _
  | signed s x ih => exact ih.bind fun v => .refl _
  | arith op l r ihl ihr | compare op l r ihl ihr =>
    exact ihl.bind fun v => ihr.bind fun w => .refl _
  | choice c t e ihc iht ihe =>
    -- the test has one value under both bindings, which chooses the same branch
    refine ihc.bind ?_
    intro v
    split
    · exact iht
    · exact ihe
  | call name args ih => exact eval_call_refines name ih

/-- **An outcome depends on the variables it meets.**  A variable is reported only if it occurs in
the tree and has no value.  An outcome that reports none is the outcome under all bindings that
extend the bindings.  Bindings that agree on the variables of the tree give the same outcome. -/
theorem eval_dependence (e : Expr) (b b' : Bindings) :
    (∀ n, e.eval b = .error (.unbound n) → n ∈ e.vars ∧ b n = none) ∧
      (Bindings.Le b b' → (∀ n, e.eval b ≠ .error (.unbound n)) → e.eval b' = e.eval b) ∧
      ((∀ n ∈ e.vars, b n = b' n) → e.eval b = e.eval b') := by
  refine ⟨fun n => of_eval_eq_unbound, ?_, eval_congr⟩
  intro hle hbound
  obtain h | ⟨n, hn, -⟩ := eval_refines hle e
  · exact h
  · exact absurd hn (hbound n)

/-- In `x ? x : y` the value of `x` decides whether `y` is needed. -/
theorem eval_dependence_branch :
    (choice (var "x") (var "x") (var "y")).eval (Bindings.ofFirst [("y", 2), ("x", 1)]) =
        (choice (var "x") (var "x") (var "y")).eval (Bindings.single "x" 1) ∧
      "y" ∈ (choice (var "x") (var "x") (var "y")).vars ∧ Bindings.single "x" 0 "y" = none := by
  refine ⟨(eval_dependence _ _ _).2.1 ?_ ?_, (eval_dependence _ _ Bindings.none).1 "y" rfl⟩
  · intro n v hn
    simp only [Bindings.single] at hn
    split at hn
    · cases hn
      subst ‹n = "x"›
      rfl
    · cases hn
  · intro n hn
    cases hn

end Expr

end Formula
