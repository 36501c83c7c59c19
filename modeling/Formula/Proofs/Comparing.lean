import Formula.Expr.Eval
import Formula.Proofs.Number.Order

/-!
# Comparisons and tests

The order of numbers is exact, but numbers are equal if their difference is below the tolerance, and
a test holds if its value is above it.  This leaves two gaps: a value can be neither below the
tolerance nor above it, and an infinite number has no difference from itself.

* `Comparison.test_eq_zero`: a number equals zero if it is below the tolerance.
* `Comparison.test_eq_of_value_eq` and `Comparison.test_eq_of_isInf`: finite numbers are equal to
  themselves, and infinite ones are not.
* **`Expr.eval_choice_ne_zero`**: a test of a number and a test whether it is not zero have the same
  outcome, except at the tolerance.
* **`Expr.eval_compare_trichotomy`**: of two numbers one is less or they are equal, unless they are
  infinite and the same.
-/

namespace Formula

open Number (value)

variable {b : Bindings} {c t e l r : Expr} {v w : Float} {op : Comparison} {err : EvalError}

theorem value_tolerance_pos : 0 < value tolerance := by
  have hvalue : value tolerance = (7737125245533627 : Nat) * 2 ^ (-86 : Int) :=
    Number.value_of_positive 7737125245533627 (-86) (by decide) rfl
  rw [hvalue]
  norm_num

/-- A value is below the tolerance or above it, or it is the tolerance. -/
theorem lt_or_gt_of_ne_tolerance (hv : v.isNaN = false) (hne : v ≠ tolerance) :
    v < tolerance ∨ tolerance < v := by
  have htolerance : tolerance.isNaN = false := by decide
  rw [Number.lt_iff_place hv htolerance, Number.lt_iff_place htolerance hv, ← ne_iff_lt_or_gt]
  intro hplace
  rcases Number.cases_of_place_eq hv htolerance hplace with ⟨hfinite, -, hvalue⟩ | ⟨-, heq⟩
  · exact hne (Number.eq_of_value_eq hfinite (by decide) hvalue value_tolerance_pos.ne')
  · exact hne heq

/-! ### Comparisons of values -/

namespace Comparison

theorem apply_eq_one_iff : op.apply v w = 1.0 ↔ op.test v w = true := by
  unfold apply
  cases op.test v w <;> decide

theorem apply_eq_zero_iff : op.apply v w = 0.0 ↔ op.test v w = false := by
  unfold apply
  cases op.test v w <;> decide

/-- A test of a comparison holds if the comparison does. -/
theorem holds_apply : holds (op.apply v w) = op.test v w := by
  unfold apply
  cases op.test v w <;> decide

theorem test_ne (v w : Float) : ne.test v w = !eq.test v w := rfl

/-- A number equals zero if it is below the tolerance. -/
theorem test_eq_zero (v : Float) : eq.test v 0 = decide (v.abs < tolerance) := by
  rw [test, Number.sub_zero]

/-- The two comparisons that are the opposites of the strict ones. -/
theorem test_le (hv : v.isNaN = false) (hw : w.isNaN = false) : le.test v w = !gt.test v w := by
  simp only [test, GT.gt, Number.le_iff_place hv hw, Number.lt_iff_place hw hv, ← not_lt,
    decide_not]

theorem test_ge (hv : v.isNaN = false) (hw : w.isNaN = false) : ge.test v w = !lt.test v w :=
  test_le hw hv

/-- Finite numbers with the same value are equal. -/
theorem test_eq_of_value_eq (hv : v.isFinite = true) (hw : w.isFinite = true)
    (h : value v = value w) : eq.test v w = true := by
  have hzero : value 0.0 = 0 := Number.value_of_zero (s := .positive) rfl
  have hnearest := Number.nearest_sub hv hw
  rw [h, sub_self, ← hzero] at hnearest
  obtain ⟨hfinite, hvalue⟩ := hnearest.value_eq (by decide)
  rw [test, decide_eq_true_eq, Number.lt_iff (by rw [Number.isFinite_abs, hfinite]) (by decide),
    Number.value_abs, hvalue, hzero, abs_zero]
  exact value_tolerance_pos

/-- Infinite numbers are not equal to themselves, since they have no difference. -/
theorem test_eq_of_isInf (h : v.isInf = true) : eq.test v v = false := by
  obtain ⟨s, h⟩ := Number.isInf_iff.1 h
  have hnan : (v - v).abs.isNaN = true := by rw [Number.isNaN_abs, Number.isNaN_sub_self h]
  rw [test, decide_eq_false_iff_not]
  exact Number.not_lt_of_isNaN hnan

/-- **Numbers in neither strict order** are equal if they are finite, and the same if they are
infinite. -/
theorem cases_of_le_of_ge (hv : v.isNaN = false) (hw : w.isNaN = false)
    (hle : le.test v w = true) (hge : ge.test v w = true) :
    (v.isFinite = true ∧ eq.test v w = true) ∨
      v.isInf = true ∧ w = v ∧ eq.test v w = false := by
  simp only [test, GE.ge, decide_eq_true_eq] at hle hge
  have hplace := le_antisymm ((Number.le_iff_place hv hw).1 hle) ((Number.le_iff_place hw hv).1 hge)
  rcases Number.cases_of_place_eq hv hw hplace with ⟨hv, hw, hvalue⟩ | ⟨hinf, rfl⟩
  · exact .inl ⟨hv, test_eq_of_value_eq hv hw hvalue⟩
  · exact .inr ⟨hinf, rfl, test_eq_of_isInf hinf⟩

/-- One of two numbers is less or they are equal, unless they are infinite and the same. -/
theorem trichotomy (hv : v.isNaN = false) (hw : w.isNaN = false) :
    lt.test v w = true ∨ eq.test v w = true ∨ gt.test v w = true ↔ ¬(v.isInf = true ∧ w = v) := by
  constructor
  · rintro h ⟨hinf, rfl⟩
    have hirrefl : ¬w < w := by rw [Number.lt_iff_place hv hv]; exact lt_irrefl _
    rw [test_eq_of_isInf hinf] at h
    simp only [test, GT.gt, hirrefl, decide_false, Bool.false_eq_true, or_self] at h
  · intro h
    by_contra hnone
    simp only [not_or, Bool.not_eq_true] at hnone
    obtain ⟨hlt, heq, hgt⟩ := hnone
    have hle : le.test v w = true := by rw [test_le hv hw, hgt, Bool.not_false]
    have hge : ge.test v w = true := by rw [test_ge hv hw, hlt, Bool.not_false]
    rcases cases_of_le_of_ge hv hw hle hge with ⟨-, htrue⟩ | ⟨hinf, hsame, -⟩
    · rw [heq] at htrue
      cases htrue
    · exact h ⟨hinf, hsame⟩

end Comparison

/-! ### Comparisons and tests in trees -/

namespace Expr

theorem eval_choice_of_ok (h : eval b c = .ok v) :
    eval b (choice c t e) = if holds v then eval b t else eval b e := by
  rw [eval, h]
  rfl

theorem eval_choice_of_error (h : eval b c = .error err) : eval b (choice c t e) = .error err := by
  rw [eval, h]
  rfl

theorem eval_compare_of_ok (hl : eval b l = .ok v) (hr : eval b r = .ok w) :
    eval b (compare op l r) = .ok (op.apply v w) := by
  rw [eval, hl, hr]
  rfl

theorem eval_compare_of_error (h : eval b l = .error err) :
    eval b (compare op l r) = .error err := by
  rw [eval, h]
  rfl

/-- A conditional on a comparison. -/
theorem eval_choice_compare (hl : eval b l = .ok v) (hr : eval b r = .ok w) :
    eval b (choice (compare op l r) t e) = if op.test v w then eval b t else eval b e := by
  rw [eval_choice_of_ok (eval_compare_of_ok hl hr), Comparison.holds_apply]

theorem eval_num (b : Bindings) (v : Float) : eval b (num v) = .ok v := by rw [eval]

theorem eval_choice_eq_zero (h : eval b c = .ok v) :
    eval b (choice (compare .eq c (num 0)) t e) =
      if v.abs < tolerance then eval b t else eval b e := by
  rw [eval_choice_compare h (eval_num b 0), Comparison.test_eq_zero]
  simp only [decide_eq_true_eq]

/-- Whether a number is zero or not makes the same cases. -/
theorem eval_choice_ne_eq (b : Bindings) (c t e : Expr) :
    eval b (choice (compare .ne c (num 0)) t e) = eval b (choice (compare .eq c (num 0)) e t) := by
  cases hc : eval b c with
  | error err =>
    rw [eval_choice_of_error (eval_compare_of_error hc),
      eval_choice_of_error (eval_compare_of_error hc)]
  | ok v =>
    rw [eval_choice_compare hc (eval_num b 0), eval_choice_compare hc (eval_num b 0),
      Comparison.test_ne]
    cases Comparison.eq.test v 0 <;> rfl

/-- **Tests and equality with zero.**  A conditional on whether a number is not zero is the one on
whether it is zero, with its branches the other way round.  The conditional on the number itself
fails as they do if the number has no value, and has the same outcome if the value is not the
tolerance, with either sign.  At the tolerance the number is not zero, but as a test it fails. -/
theorem eval_choice_ne_zero (b : Bindings) (c t e : Expr) :
    let test := eval b (choice c t e)
    let unequal := eval b (choice (compare .ne c (num 0)) t e)
    unequal = eval b (choice (compare .eq c (num 0)) e t) ∧
    (∀ err, eval b c = .error err → test = .error err ∧ unequal = .error err) ∧
    ∀ v, eval b c = .ok v → v.isNaN = false →
      (v.abs ≠ tolerance → test = unequal) ∧
      (v.abs = tolerance → test = eval b e ∧ unequal = eval b t) := by
  intro test unequal
  refine ⟨eval_choice_ne_eq b c t e, fun err hc => ?_, fun v hc hnan => ?_⟩
  · exact ⟨eval_choice_of_error hc, eval_choice_of_error (eval_compare_of_error hc)⟩
  · have htest : test = if tolerance < v.abs then eval b t else eval b e := by
      simp only [test, eval_choice_of_ok hc, holds, GT.gt, decide_eq_true_eq]
    have hunequal : unequal = if v.abs < tolerance then eval b e else eval b t := by
      simp only [unequal, eval_choice_ne_eq, eval_choice_eq_zero hc]
    have htolerance : tolerance.isNaN = false := by decide
    rw [← Number.isNaN_abs] at hnan
    have hlt := Number.lt_iff_place hnan htolerance
    have hgt := Number.lt_iff_place htolerance hnan
    rw [htest, hunequal]
    simp only [hlt, hgt]
    constructor
    · intro hne
      rcases lt_or_gt_of_ne_tolerance hnan hne with h | h
      · rw [if_pos (hlt.1 h), if_neg (hlt.1 h).not_gt]
      · rw [if_pos (hgt.1 h), if_neg (hgt.1 h).not_gt]
    · intro heq
      rw [heq, if_neg (lt_irrefl _), if_neg (lt_irrefl _)]
      exact ⟨rfl, rfl⟩

/-- With `2`, at the tolerance, and without a value. -/
theorem eval_choice_ne_zero_cases :
    eval .none (choice (num 2) (num 1) (num 0)) =
        eval .none (choice (compare .ne (num 2) (num 0)) (num 1) (num 0)) ∧
      eval .none (choice (compare .ne (num tolerance) (num 0)) (num 1) (num 0)) = .ok 1 ∧
      eval .none (choice (var "x") (num 1) (num 0)) = .error (.unbound "x") := by
  obtain ⟨-, -, hother⟩ := eval_choice_ne_zero .none (num 2) (num 1) (num 0)
  obtain ⟨-, -, hat⟩ := eval_choice_ne_zero .none (num tolerance) (num 1) (num 0)
  obtain ⟨-, herror, -⟩ := eval_choice_ne_zero .none (var "x") (num 1) (num 0)
  have hunbound : eval .none (var "x") = .error (.unbound "x") := rfl
  exact ⟨(hother 2 (eval_num _ _) (by decide)).1 (by decide),
    ((hat tolerance (eval_num _ _) (by decide)).2 (by decide)).2.trans (eval_num _ _),
    (herror _ hunbound).1⟩

/-- At the tolerance the two conditionals go different ways. -/
theorem exists_test_ne_unequal :
    ∃ c t e : Expr, eval .none c = .ok 1e-10 ∧ (1e-10 : Float).isNaN = false ∧
      eval .none (choice c t e) = .ok 2 ∧
      eval .none (choice (compare .ne c (num 0)) t e) = .ok 1 :=
  ⟨num 1e-10, num 1, num 2, rfl, by decide, rfl, rfl⟩

/-- **Of two numbers one is less or they are equal**, unless they are infinite and the same.  Both
operands have values that are not NaN.  Then each comparison is true or false, and `<=`, `>=` and
`!=` are true where `>`, `<` and `==` are false.  If `<=` and `>=` are both true and the values are
finite, then `==` is true and `!=` is false; if they are infinite, then they are the same, but `==`
is false and `!=` is true, since they have no difference. -/
theorem eval_compare_trichotomy (hl : eval b l = .ok v) (hr : eval b r = .ok w)
    (hv : v.isNaN = false) (hw : w.isNaN = false) :
    let isTrue (op : Comparison) : Prop := eval b (compare op l r) = .ok 1.0
    let isFalse (op : Comparison) : Prop := eval b (compare op l r) = .ok 0.0
    (∀ op, isTrue op ∨ isFalse op) ∧
    ((isTrue .le ↔ isFalse .gt) ∧ (isTrue .ge ↔ isFalse .lt) ∧ (isTrue .ne ↔ isFalse .eq)) ∧
    (isTrue .le → isTrue .ge →
      (v.isFinite = true ∧ isTrue .eq ∧ isFalse .ne) ∨
        v.isInf = true ∧ w = v ∧ isFalse .eq ∧ isTrue .ne) ∧
    (isTrue .lt ∨ isTrue .eq ∨ isTrue .gt ↔ ¬(v.isInf = true ∧ w = v)) := by
  intro isTrue isFalse
  have htrue (op : Comparison) : isTrue op ↔ op.test v w = true := by
    simp only [isTrue, eval_compare_of_ok hl hr, Except.ok.injEq, Comparison.apply_eq_one_iff]
  have hfalse (op : Comparison) : isFalse op ↔ op.test v w = false := by
    simp only [isFalse, eval_compare_of_ok hl hr, Except.ok.injEq, Comparison.apply_eq_zero_iff]
  refine ⟨fun op => ?_, ⟨?_, ?_, ?_⟩, fun hle hge => ?_, ?_⟩
  · rw [htrue, hfalse]
    exact Bool.eq_false_or_eq_true _
  · rw [htrue, hfalse, Comparison.test_le hv hw, Bool.not_eq_true']
  · rw [htrue, hfalse, Comparison.test_ge hv hw, Bool.not_eq_true']
  · rw [htrue, hfalse, Comparison.test_ne, Bool.not_eq_true']
  · rw [htrue] at hle hge
    rw [htrue, hfalse, hfalse, htrue, Comparison.test_ne, Bool.not_eq_false', Bool.not_eq_true']
    refine (Comparison.cases_of_le_of_ge hv hw hle hge).imp ?_ ?_
    · exact fun ⟨hfinite, heq⟩ => ⟨hfinite, heq, heq⟩
    · exact fun ⟨hinf, hsame, heq⟩ => ⟨hinf, hsame, heq, heq⟩
  · rw [htrue, htrue, htrue]
    exact Comparison.trichotomy hv hw

/-- The number `2` is neither less than `2` nor more, and equals it. -/
theorem eval_compare_trichotomy_two :
    eval .none (compare .eq (num 2) (num 2)) = .ok 1.0 ∧
      eval .none (compare .ne (num 2) (num 2)) = .ok 0.0 := by
  have hnum : eval .none (num 2) = .ok 2 := eval_num _ _
  obtain ⟨-, -, hequal, -⟩ := eval_compare_trichotomy hnum hnum (by decide) (by decide)
  rcases hequal rfl rfl with ⟨-, htrue, hfalse⟩ | ⟨hinf, -⟩
  · exact ⟨htrue, hfalse⟩
  · cases hinf

/-- A product that is too large is neither less than itself nor more, and does not equal itself. -/
theorem exists_compare_none :
    ∃ (e : Expr) (v : Float), eval .none e = .ok v ∧ v.isNaN = false ∧
      eval .none (compare .le e e) = .ok 1 ∧ eval .none (compare .ge e e) = .ok 1 ∧
      eval .none (compare .eq e e) = .ok 0 ∧ eval .none (compare .ne e e) = .ok 1 ∧
      eval .none (compare .lt e e) = .ok 0 ∧ eval .none (compare .gt e e) = .ok 0 := by
  have hvalue : eval .none (arith .mul (num 1e200) (num 1e200)) = .ok (1 / 0) := by
    have hproduct : (1e200 * 1e200 : Float) = 1 / 0 := by decide +kernel
    rw [← hproduct]
    rfl
  refine ⟨_, _, hvalue, by decide, ?_, ?_, ?_, ?_, ?_, ?_⟩ <;>
    exact (eval_compare_of_ok hvalue hvalue).trans rfl

end Expr

end Formula
