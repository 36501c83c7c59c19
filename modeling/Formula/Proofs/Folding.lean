import Formula.Expr.Fold
import Formula.Expr.Vars

/-!
# Folding keeps the meaning

Folding evaluates parts of a tree before there are bindings.  The value of a part whose operands are
numbers does not depend on bindings, so that the folded tree has the value of the tree, or its
error, under all bindings.

* `Expr.eval_congr`: the outcome depends only on the values of the variables.
* `Expr.eval_collapse`: one step of folding keeps the outcome.
* **`Expr.eval_fold`**: folding keeps the outcome, for trees of every shape.
* `Expr.mem_vars_of_fold`: folding brings in no variables.
-/

namespace Formula

namespace Expr

variable {b b' : Bindings} {e : Expr} {n : String}

/-- Calls of the same function have the same outcome if their arguments have. -/
theorem eval_call_congr (name : String) {xs ys : List Expr}
    (h : xs.map (eval b) = ys.map (eval b')) : eval b (call name xs) = eval b' (call name ys) := by
  have hlength : xs.length = ys.length := by simpa using congrArg List.length h
  match xs, ys, hlength with
  | [], [], _ => rfl
  | [x], [y], _ =>
    simp only [List.map_cons, List.map_nil, List.cons.injEq, and_true] at h
    simp only [eval, h]
  | x :: x' :: xs, y :: y' :: ys, hlength =>
    -- the arguments are not evaluated, and only their number counts
    simp only [eval, hlength]

/-- The outcome depends only on the values of the variables. -/
theorem eval_congr (h : ∀ n ∈ e.vars, b n = b' n) : eval b e = eval b' e := by
  induction e with
  | num v => rfl
  | var n => simp only [eval, h n (by simp)]
  | signed s x ih => simp only [eval, ih h]
  | arith op l r ihl ihr =>
    simp only [eval, ihl fun n hn => h n (mem_vars_arith.2 (.inl hn)),
      ihr fun n hn => h n (mem_vars_arith.2 (.inr hn))]
  | compare op l r ihl ihr =>
    simp only [eval, ihl fun n hn => h n (mem_vars_compare.2 (.inl hn)),
      ihr fun n hn => h n (mem_vars_compare.2 (.inr hn))]
  | choice c t e ihc iht ihe =>
    simp only [eval, ihc fun n hn => h n (mem_vars_choice.2 (.inl hn)),
      iht fun n hn => h n (mem_vars_choice.2 (.inr (.inl hn))),
      ihe fun n hn => h n (mem_vars_choice.2 (.inr (.inr hn)))]
  | call name args ih =>
    apply eval_call_congr
    apply List.map_congr_left
    intro x hx
    apply ih x hx
    intro n hn
    exact h n (mem_vars_call.2 ⟨x, hx, hn⟩)

/-! ### One step -/

/-- A number has no variables. -/
theorem vars_of_isNum (h : e.isNum = true) : e.vars = [] := by
  cases e with
  | num v => rfl
  | _ => cases h

/-- An operation on numbers has no variables. -/
theorem vars_of_isClosed (h : e.isClosed = true) : n ∉ e.vars := by
  cases e with
  | signed s x => simp [vars_of_isNum h]
  | arith op l r | compare op l r =>
    simp only [isClosed, Bool.and_eq_true] at h
    simp [vars_of_isNum h.1, vars_of_isNum h.2]
  | call name args =>
    simp only [isClosed, List.all_eq_true] at h
    rw [mem_vars_call]
    rintro ⟨x, hx, hn⟩
    rw [vars_of_isNum (h x hx)] at hn
    cases hn
  | _ => cases h

/-- A tree that collapses has the value of the number that takes its place. -/
theorem collapse_eq (b : Bindings) (e : Expr) :
    e.collapse = e ∨ ∃ v, e.collapse = num v ∧ e.eval b = .ok v := by
  unfold collapse
  split
  · -- an operation on numbers has the same outcome under all bindings as under none
    have hb : e.eval b = e.eval Bindings.none :=
      eval_congr fun n hn => absurd hn (vars_of_isClosed ‹_›)
    split
    · exact .inr ⟨_, rfl, by rw [hb, ‹e.eval Bindings.none = _›]⟩
    · exact .inl rfl
  · exact .inl rfl

theorem eval_collapse (b : Bindings) (e : Expr) : e.collapse.eval b = e.eval b := by
  obtain h | ⟨v, h, hv⟩ := collapse_eq b e
  · rw [h]
  · rw [h, hv]
    rfl

theorem mem_vars_of_collapse (h : n ∈ e.collapse.vars) : n ∈ e.vars := by
  obtain he | ⟨v, he, -⟩ := collapse_eq Bindings.none e
  · rwa [he] at h
  · rw [he] at h
    cases h

/-! ### All steps -/

theorem foldAll_eq_map (xs : List Expr) : foldAll xs = xs.map fold := by
  induction xs with
  | nil => rfl
  | cons x xs ih => rw [foldAll, ih, List.map_cons]

/-- A conditional whose test folds to a number folds to the branch that the number chooses. -/
theorem fold_choice_of_eq_num {c : Expr} {v : Float} (h : c.fold = num v) (t e : Expr) :
    (choice c t e).fold = if holds v then t.fold else e.fold := by
  simp only [fold, h]

/-- A conditional whose test does not fold to a number stays a conditional. -/
theorem fold_choice_of_ne_num {c : Expr} (h : ∀ v, c.fold ≠ num v) (t e : Expr) :
    (choice c t e).fold = choice c.fold t.fold e.fold := by
  rw [fold]
  split
  · exact absurd ‹c.fold = _› (h _)
  · rfl

/-- A conditional folds to the branch that a number chooses, or stays a conditional. -/
theorem fold_choice (c t e : Expr) :
    (∃ v, c.fold = num v ∧ (choice c t e).fold = if holds v then t.fold else e.fold) ∨
      (choice c t e).fold = choice c.fold t.fold e.fold := by
  by_cases hc : ∃ v, c.fold = num v
  · obtain ⟨v, hv⟩ := hc
    exact .inl ⟨v, hv, fold_choice_of_eq_num hv t e⟩
  · exact .inr (fold_choice_of_ne_num (not_exists.1 hc) t e)

/-- **Folding keeps the meaning.**  A tree of any shape and the folded tree have the same value
under all bindings, or fail with the same error. -/
theorem eval_fold (b : Bindings) (e : Expr) : e.fold.eval b = e.eval b := by
  induction e with
  | num v => rfl
  | var n => rfl
  | signed s x ih =>
    rw [fold, eval_collapse]
    simp only [eval, ih]
  | arith op l r ihl ihr | compare op l r ihl ihr =>
    rw [fold, eval_collapse]
    simp only [eval, ihl, ihr]
  | choice c t e ihc iht ihe =>
    obtain ⟨v, hv, hfold⟩ | hfold := fold_choice c t e
    · -- the test is the number `v`, so that the branch is chosen under all bindings alike
      have hc : c.eval b = .ok v := by
        rw [← ihc, hv]
        rfl
      rw [hfold, eval, hc]
      show _ = if holds v then t.eval b else e.eval b
      split
      · exact iht
      · exact ihe
    · rw [hfold]
      simp only [eval, ihc, iht, ihe]
  | call name args ih =>
    rw [fold, eval_collapse, foldAll_eq_map]
    refine eval_call_congr name ?_
    rw [List.map_map]
    exact List.map_congr_left ih

/-- Folding brings in no variables. -/
theorem mem_vars_of_fold (h : n ∈ e.fold.vars) : n ∈ e.vars := by
  induction e with
  | num v => exact h
  | var m => exact h
  | signed s x ih =>
    have h : n ∈ (signed s x.fold).vars := mem_vars_of_collapse h
    exact ih h
  | arith op l r ihl ihr =>
    exact mem_vars_arith.2 ((mem_vars_arith.1 (mem_vars_of_collapse h)).imp ihl ihr)
  | compare op l r ihl ihr =>
    exact mem_vars_compare.2 ((mem_vars_compare.1 (mem_vars_of_collapse h)).imp ihl ihr)
  | choice c t e ihc iht ihe =>
    rw [mem_vars_choice]
    obtain ⟨v, -, hfold⟩ | hfold := fold_choice c t e
    · rw [hfold] at h
      split at h
      · exact .inr (.inl (iht h))
      · exact .inr (.inr (ihe h))
    · rw [hfold, mem_vars_choice] at h
      exact h.imp ihc (.imp iht ihe)
  | call name args ih =>
    have h := mem_vars_of_collapse h
    rw [foldAll_eq_map, mem_vars_call] at h
    obtain ⟨y, hy, hn⟩ := h
    obtain ⟨x, hx, rfl⟩ := List.mem_map.1 hy
    exact mem_vars_call.2 ⟨x, hx, ih x hx hn⟩

end Expr

end Formula
