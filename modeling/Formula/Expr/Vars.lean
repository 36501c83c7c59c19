import Formula.Expr

/-!
# The variables of a tree

`Expr.vars` lists the names of the variables of a tree, each once, in the order in which they first
occur from left to right.
-/

namespace Formula

namespace Expr

mutual

/-- The names in `seen`, then the new names of the tree in the order of their first occurrence. -/
def varsAfter (seen : List String) : Expr → List String
  | num _ => seen
  | var n => if n ∈ seen then seen else seen ++ [n]
  | signed _ x => varsAfter seen x
  | arith _ l r | compare _ l r => varsAfter (varsAfter seen l) r
  | choice c t e => varsAfter (varsAfter (varsAfter seen c) t) e
  | call _ args => varsAfterAll seen args

/-- The names in `seen`, then the new names of several trees. -/
def varsAfterAll (seen : List String) : List Expr → List String
  | [] => seen
  | x :: xs => varsAfterAll (varsAfter seen x) xs

end

/-- The names of the variables, each once, in the order of their first occurrence. -/
def vars (e : Expr) : List String := e.varsAfter []

variable {n : String}

theorem mem_varsAfterAll {args : List Expr}
    (h : ∀ x ∈ args, ∀ seen, n ∈ varsAfter seen x ↔ n ∈ seen ∨ n ∈ x.vars) (seen : List String) :
    n ∈ varsAfterAll seen args ↔ n ∈ seen ∨ ∃ x ∈ args, n ∈ x.vars := by
  induction args generalizing seen with
  | nil => simp [varsAfterAll]
  | cons x xs ih =>
    obtain ⟨hx, hxs⟩ := List.forall_mem_cons.1 h
    simp only [varsAfterAll, ih hxs, hx, List.mem_cons, or_and_right, exists_or, exists_eq_left,
      or_assoc]

/-- After the names in `seen` come the variables of the tree. -/
theorem mem_varsAfter (e : Expr) (seen : List String) :
    n ∈ varsAfter seen e ↔ n ∈ seen ∨ n ∈ e.vars := by
  induction e generalizing seen with
  | num v => simp [vars, varsAfter]
  | var m =>
    simp only [vars, varsAfter]
    split <;> grind
  | signed s x ih => exact ih seen
  | arith op l r ihl ihr | compare op l r ihl ihr =>
    rw [vars, varsAfter, varsAfter, ihr, ihr, ihl, or_assoc]
    rfl
  | choice c t e ihc iht ihe =>
    rw [vars, varsAfter, varsAfter, ihe, ihe, iht, iht, ihc, or_assoc, or_assoc, or_assoc]
    rfl
  | call name args ih =>
    rw [vars, varsAfter, varsAfter, mem_varsAfterAll ih, mem_varsAfterAll ih]
    simp

@[simp]
theorem vars_num (v : Float) : (num v).vars = [] := rfl

@[simp]
theorem vars_var (m : String) : (var m).vars = [m] := rfl

@[simp]
theorem vars_signed (s : Sign) (x : Expr) : (signed s x).vars = x.vars := rfl

@[simp]
theorem mem_vars_arith {op : Arith} {l r : Expr} :
    n ∈ (arith op l r).vars ↔ n ∈ l.vars ∨ n ∈ r.vars := mem_varsAfter r l.vars

@[simp]
theorem mem_vars_compare {op : Comparison} {l r : Expr} :
    n ∈ (compare op l r).vars ↔ n ∈ l.vars ∨ n ∈ r.vars := mem_varsAfter r l.vars

@[simp]
theorem mem_vars_choice {c t e : Expr} :
    n ∈ (choice c t e).vars ↔ n ∈ c.vars ∨ n ∈ t.vars ∨ n ∈ e.vars := by
  rw [vars, varsAfter, mem_varsAfter, mem_varsAfter, or_assoc]
  rfl

@[simp]
theorem mem_vars_call {name : String} {args : List Expr} :
    n ∈ (call name args).vars ↔ ∃ x ∈ args, n ∈ x.vars := by
  rw [vars, varsAfter, mem_varsAfterAll fun x _ => mem_varsAfter x]
  simp

theorem nodup_varsAfterAll {args : List Expr}
    (h : ∀ x ∈ args, ∀ {seen : List String}, seen.Nodup → (varsAfter seen x).Nodup)
    {seen : List String} (hseen : seen.Nodup) : (varsAfterAll seen args).Nodup := by
  induction args generalizing seen with
  | nil => exact hseen
  | cons x xs ih =>
    obtain ⟨hx, hxs⟩ := List.forall_mem_cons.1 h
    exact ih hxs (hx hseen)

/-- A name that has been seen is not listed again. -/
theorem nodup_varsAfter (e : Expr) {seen : List String} (h : seen.Nodup) :
    (varsAfter seen e).Nodup := by
  induction e generalizing seen with
  | num v => exact h
  | var n =>
    rw [varsAfter]
    split
    · exact h
    · rw [List.nodup_append]
      exact ⟨h, by simp, by grind⟩
  | signed s x ih => exact ih h
  | arith op l r ihl ihr | compare op l r ihl ihr => exact ihr (ihl h)
  | choice c t e ihc iht ihe => exact ihe (iht (ihc h))
  | call name args ih => exact nodup_varsAfterAll ih h

/-- Each variable is listed once. -/
theorem nodup_vars (e : Expr) : e.vars.Nodup := nodup_varsAfter e List.nodup_nil

end Expr

end Formula
