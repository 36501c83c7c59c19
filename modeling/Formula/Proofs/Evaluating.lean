import Formula.Proofs.Compiling
import Formula.Proofs.Nodes

/-!
# Why evaluating fails

Every error of an evaluation arises at a node of the tree: at a variable without a value, at a
division, or at a call.  A tree that is read has one variable at most and calls functions with one
argument, so that a curve has all that its evaluation needs once its variable has a value.

* `Node.Raises` says which errors can arise at a node, and when.
* `Expr.exists_raises_of_eval`: every error of a tree arises at one of its nodes.
* **`Curve.eval_closed`**: a curve depends on its variable alone, and its evaluation fails neither
  for lack of a value nor for the number of arguments.
-/

namespace Formula

/-- The error can arise at the node, whose operands have values. -/
inductive Node.Raises (b : Bindings) : Node → EvalError → Prop
  | unbound {n : String} : b n = none → Raises b (.var n) (.unbound n)
  | divisionByZero : Raises b (.arith .div) .divisionByZero
  | unknownFunction {name : String} {args : Nat} : Elementary.find? name = none →
      Raises b (.call name args) (.unknownFunction name)
  | arity {name : String} {args : Nat} : args ≠ 1 →
      Raises b (.call name args) (.arity name args)
  | negativeSqrt {name : String} {x : Float} : Elementary.find? name = some .sqrt → x < 0.0 →
      Raises b (.call name 1) (.negativeSqrt x)
  | nonPositiveLog {name : String} {x : Float} : Elementary.find? name = some .log → x ≤ 0.0 →
      Raises b (.call name 1) (.nonPositiveLog x)

variable {b : Bindings} {e : Expr} {err : EvalError}

theorem Outcome.bind_eq_error_iff {y : Outcome} {f : Float → Outcome} :
    y >>= f = .error err ↔ y = .error err ∨ ∃ v, y = .ok v ∧ f v = .error err := by
  cases y <;> simp [bind, Except.bind]

/-- Of two operands one fails, or what is done with their values. -/
theorem Outcome.error_of_bind_bind {y z : Outcome} {f : Float → Float → Outcome}
    (h : (do let v ← y; let w ← z; f v w) = .error err) :
    y = .error err ∨ z = .error err ∨ ∃ v w, f v w = .error err := by
  rcases Outcome.bind_eq_error_iff.1 h with h | ⟨v, -, h⟩
  · exact .inl h
  · rcases Outcome.bind_eq_error_iff.1 h with h | ⟨w, -, h⟩
    · exact .inr (.inl h)
    · exact .inr (.inr ⟨v, w, h⟩)

theorem Arith.raises_of_apply {op : Arith} {l r : Float} (h : op.apply l r = .error err) :
    Node.Raises b (.arith op) err := by
  cases op with
  | div =>
    simp only [apply] at h
    split at h <;> cases h
    exact .divisionByZero
  | _ => cases h

theorem Elementary.raises_of_apply {f : Elementary} {name : String} {x : Float}
    (hf : find? name = some f) (h : f.apply x = .error err) :
    Node.Raises b (.call name 1) err := by
  cases f with
  | sqrt =>
    simp only [apply] at h
    split at h <;> cases h
    exact .negativeSqrt hf ‹_›
  | log =>
    simp only [apply] at h
    split at h <;> cases h
    exact .nonPositiveLog hf ‹_›
  | _ => cases h

namespace Expr

/-- A call fails because of the function or the number of arguments, or because the one argument
fails or is refused. -/
theorem eval_call_eq_error {name : String} {args : List Expr}
    (h : eval b (call name args) = .error err) :
    Node.Raises b (.call name args.length) err ∨ ∃ x ∈ args, eval b x = .error err := by
  cases hf : Elementary.find? name with
  | none =>
    have herr : err = .unknownFunction name := by
      unfold eval at h
      split at h <;> simp_all
    rw [herr]
    exact .inl (.unknownFunction hf)
  | some f =>
    obtain _ | ⟨x, _ | ⟨y, ys⟩⟩ := args
    · simp only [eval, hf] at h
      cases h
      exact .inl (.arity (by simp))
    · simp only [eval, hf, Outcome.bind_eq_error_iff] at h
      rcases h with h | ⟨v, -, h⟩
      · exact .inr ⟨x, List.mem_cons_self, h⟩
      · exact .inl (Elementary.raises_of_apply hf h)
    · simp only [eval, hf] at h
      cases h
      exact .inl (.arity (by simp))

/-- An error that arises in a part of a tree arises in the tree. -/
theorem exists_raises_of_subset {x : Expr} (hsub : x.nodes ⊆ e.nodes)
    (h : ∃ m ∈ x.nodes, m.Raises b err) : ∃ m ∈ e.nodes, m.Raises b err := by
  obtain ⟨m, hm, hraises⟩ := h
  exact ⟨m, hsub hm, hraises⟩

/-- **Every error arises at a node of the tree.** -/
theorem exists_raises_of_eval (h : eval b e = .error err) : ∃ m ∈ e.nodes, m.Raises b err := by
  induction e with
  | num v => cases h
  | var n =>
    cases hn : b n with
    | some v => simp [eval, hn] at h
    | none =>
      simp only [eval, hn] at h
      cases h
      exact ⟨.var n, List.mem_cons_self, .unbound hn⟩
  | signed s x ih =>
    rcases Outcome.bind_eq_error_iff.1 h with h | ⟨v, -, h⟩
    · exact exists_raises_of_subset (by simp [nodes]) (ih h)
    · cases h
  | arith op l r ihl ihr =>
    rcases Outcome.error_of_bind_bind h with h | h | ⟨v, w, h⟩
    · exact exists_raises_of_subset (by simp [nodes]) (ihl h)
    · exact exists_raises_of_subset (by simp [nodes]) (ihr h)
    · exact ⟨.arith op, by simp [nodes], Arith.raises_of_apply h⟩
  | compare op l r ihl ihr =>
    rcases Outcome.error_of_bind_bind h with h | h | ⟨v, w, h⟩
    · exact exists_raises_of_subset (by simp [nodes]) (ihl h)
    · exact exists_raises_of_subset (by simp [nodes]) (ihr h)
    · cases h
  | choice c t e ihc iht ihe =>
    rcases Outcome.bind_eq_error_iff.1 h with h | ⟨v, -, h⟩
    · exact exists_raises_of_subset (by simp [nodes]) (ihc h)
    · split at h
      · exact exists_raises_of_subset (by simp [nodes]) (iht h)
      · exact exists_raises_of_subset (fun m hm => by simp [nodes, hm]) (ihe h)
  | call name args ih =>
    rcases eval_call_eq_error h with hraises | ⟨x, hx, h⟩
    · exact ⟨_, mem_nodes_call.2 (.inr rfl), hraises⟩
    · exact exists_raises_of_subset (fun m hm => mem_nodes_call.2 (.inl ⟨x, hx, hm⟩)) (ih x hx h)

/-- A variable that is reported occurs in the tree and has no value. -/
theorem of_eval_eq_unbound {n : String} (h : eval b e = .error (.unbound n)) :
    n ∈ e.vars ∧ b n = none := by
  obtain ⟨m, hm, hraises⟩ := exists_raises_of_eval h
  cases hraises
  exact ⟨(var_mem_nodes_iff e).1 hm, ‹b n = none›⟩

/-- The functions of a tree that is read have the one argument that they need. -/
theorem Shaped.eval_ne_arity {L : Leaves} (h : e.Shaped L) (name : String) (args : Nat) :
    eval b e ≠ .error (.arity name args) := by
  intro he
  obtain ⟨m, hm, hraises⟩ := exists_raises_of_eval he
  cases hraises
  exact absurd (h.of_call_mem_nodes hm).2 ‹args ≠ 1›

end Expr

namespace Curve

variable {folding : Bool} {source : String} {c : Curve}

/-- The tree of a curve is that of its text, folded or not. -/
theorem exists_shaped_of_compile (h : compile folding source = .ok c) :
    ∃ (name : String) (t : Expr), t.Shaped (Expr.readLeaves name) ∧
      (∀ n ∈ c.tree.vars, n = name) ∧ ∀ b, c.tree.eval b = t.eval b := by
  cases hparse : Expr.parse source with
  | error err =>
    rw [compile_of_error hparse] at h
    cases h
  | ok t =>
    rw [compile_of_ok hparse] at h
    cases h
    obtain ⟨name, hshape⟩ := Expr.exists_shaped_of_parse hparse
    refine ⟨name, t, hshape, ?_, ?_⟩
    · intro n hn
      have hn : n ∈ t.vars := by
        cases folding with
        | false => exact hn
        | true => exact Expr.mem_vars_of_fold hn
      exact (hshape.of_mem_vars hn).1
    · intro b
      cases folding with
      | false => rfl
      | true => exact Expr.eval_fold b t

/-- **A curve is closed under its variable.**  Under all bindings that give its variable the value
`x`, and under all bindings if it has none, its tree has the outcome of the curve at `x`; and this
is no error for lack of a value or for the number of arguments. -/
theorem eval_closed (h : compile folding source = .ok c) :
    (∀ (x : Float) (b : Bindings), (∃ v, c.var? = some v ∧ b v = some x) ∨ c.var? = none →
      c.tree.eval b = c.eval x) ∧
    ∀ x : Float, (∀ n, c.eval x ≠ .error (.unbound n)) ∧
      ∀ name args, c.eval x ≠ .error (.arity name args) := by
  obtain ⟨name, t, hshape, hvars, heval⟩ := exists_shaped_of_compile h
  refine ⟨?_, ?_⟩
  · intro x b hb
    rw [eval_eq_single hvars]
    apply Expr.eval_congr
    intro n hn
    -- some variable occurs, and it is the one that has the value `x`
    obtain rfl := hvars n hn
    cases hc : c.tree.vars with
    | nil =>
      rw [hc] at hn
      cases hn
    | cons v vs =>
      obtain rfl : v = n := hvars v (hc ▸ List.mem_cons_self)
      simp only [var?, hc, List.head?_cons, Option.some.injEq, exists_eq_left', reduceCtorEq,
        or_false] at hb
      simp [hb, Bindings.single]
  · intro x
    rw [eval_eq_single hvars, heval]
    refine ⟨?_, hshape.eval_ne_arity⟩
    intro n hn
    obtain ⟨hmem, hnone⟩ := Expr.of_eval_eq_unbound hn
    simp [(hshape.of_mem_vars hmem).1, Bindings.single] at hnone

/-- In `0 ? x : 2` the variable occurs where it is not evaluated. -/
theorem eval_closed_untaken :
    ∃ c, compile false "0 ? x : 2" = .ok c ∧ c.var? = some "x" ∧
      c.tree.eval (Bindings.ofFirst [("y", 1), ("x", 3)]) = c.eval 3 ∧
      (∀ n, c.eval 3 ≠ .error (.unbound n)) ∧
      ∀ name args, c.eval 3 ≠ .error (.arity name args) := by
  have hparse : Expr.parse "0 ? x : 2" = .ok (.choice (.num 0) (.var "x") (.num 2)) :=
    Expr.parse_eq_ok_iff.2 ⟨_, _, by cbv, rfl, Expr.ofPostfix_eq_ok_iff.1 rfl⟩
  have hcompile := compile_of_ok hparse false
  have hclosed := eval_closed hcompile
  exact ⟨_, hcompile, rfl, hclosed.1 3 _ (.inl ⟨"x", rfl, rfl⟩), hclosed.2 3⟩

end Curve

end Formula
