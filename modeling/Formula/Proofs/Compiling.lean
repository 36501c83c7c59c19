import Formula.Proofs.Folding
import Formula.Proofs.Parsed

/-!
# Compiling with and without folding

Folding can take the variable out of a tree, so that the curve is evaluated without a binding for
it.  A tree that is read has one variable at most, which ties the two ways to evaluate a curve to
the same bindings.

* `Curve.eval_eq_single`: a curve is evaluated as under a binding for the one name that its
  variables have.
* **`Curve.compile_folding`**: folding changes neither what is compiled nor any value or error.
-/

namespace Formula

namespace Curve

variable {source : String}

/-- Evaluating a curve binds its variable, if it has one. -/
theorem eval_eq_single {c : Curve} {name : String} (h : ∀ n ∈ c.tree.vars, n = name) (x : Float) :
    c.eval x = c.tree.eval (Bindings.single name x) := by
  unfold eval var?
  cases hvars : c.tree.vars with
  | nil => exact Expr.eval_congr fun n hn => by simp [hvars] at hn
  | cons n ns =>
    rw [hvars] at h
    rw [h n List.mem_cons_self]
    rfl

theorem compile_of_error {err : CompileError} (h : Expr.parse source = .error err)
    (folding : Bool) : compile folding source = .error err := by
  simp only [compile, h, bind, Except.bind]

theorem compile_of_ok {t : Expr} (h : Expr.parse source = .ok t) (folding : Bool) :
    compile folding source = .ok ⟨source, if folding then t.fold else t⟩ := by
  simp only [compile, h, bind, Except.bind]
  rfl

/-- **Folding keeps the meaning of trees and of curves.**  A tree and the folded tree have the same
outcome under all bindings.  A text is refused with and without folding for the same reason, or
gives two curves that have the same outcome at every value of the variable, and whose trees have the
same outcome under all bindings. -/
theorem compile_folding :
    (∀ (e : Expr) (b : Bindings), e.fold.eval b = e.eval b) ∧
      ∀ source : String,
        (∃ err, compile true source = .error err ∧ compile false source = .error err) ∨
        ∃ c d, compile true source = .ok c ∧ compile false source = .ok d ∧
          (∀ x, c.eval x = d.eval x) ∧ ∀ b, c.tree.eval b = d.tree.eval b := by
  refine ⟨fun e b => Expr.eval_fold b e, ?_⟩
  intro source
  cases hparse : Expr.parse source with
  | error err => exact .inl ⟨err, compile_of_error hparse true, compile_of_error hparse false⟩
  | ok t =>
    refine .inr ⟨_, _, compile_of_ok hparse true, compile_of_ok hparse false, ?_,
      fun b => Expr.eval_fold b t⟩
    intro x
    -- both trees have no other variable than `name`, whether or not folding has left it in
    obtain ⟨name, hshape⟩ := Expr.exists_shaped_of_parse hparse
    have hvars : ∀ n ∈ t.vars, n = name := fun n hn => (hshape.of_mem_vars hn).1
    have hfold : ∀ n ∈ t.fold.vars, n = name := fun n hn => hvars n (Expr.mem_vars_of_fold hn)
    calc (Curve.mk source t.fold).eval x
        = t.fold.eval (Bindings.single name x) := eval_eq_single hfold x
      _ = t.eval (Bindings.single name x) := Expr.eval_fold _ t
      _ = (Curve.mk source t).eval x := (eval_eq_single (c := ⟨source, t⟩) hvars x).symm

end Curve

end Formula
