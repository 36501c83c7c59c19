import Mathlib.Data.List.Basic
import Mathlib.Data.List.Induction
import Formula.Proofs.Nodes

/-!
# Occurrences of variables

`Expr.occurrences` lists the names of a tree's variables from left to right, as often as they occur.
The variables of the tree are this list without the repetitions: `Expr.vars` walks through the tree
with the names that it has seen, and what it has seen is always the list so far without repetitions.

* `Expr.varsAfter_eraseDups`: the walk through a tree, after any names.
* `Expr.pairwise_idxOf_eraseDups`: without repetitions, the names are in the order in which they
  first occur.
* **`Expr.vars_exact`**: the variables of a tree are its occurrences without repetitions.
-/

namespace Formula

/-- The name of the node, if it is a variable. -/
def Node.varName? : Node → Option String
  | var n => some n
  | _ => none

namespace Expr

/-- The names of the variables from left to right, with repetitions. -/
def occurrences (e : Expr) : List String := e.nodes.filterMap Node.varName?

/-! ### Lists without repetitions -/

section Lists

variable {α : Type} [DecidableEq α]

/-- An element is added to a list without repetitions if it is new. -/
theorem eraseDups_concat (xs : List α) (n : α) :
    (xs ++ [n]).eraseDups = if n ∈ xs then xs.eraseDups else xs.eraseDups ++ [n] := by
  rw [List.eraseDups_append, List.cons_removeAll, List.nil_removeAll]
  by_cases h : n ∈ xs <;> simp [h, List.eraseDups_cons]

/-- Without repetitions, the elements are in the order in which they first occur. -/
theorem pairwise_idxOf_eraseDups (xs : List α) :
    xs.eraseDups.Pairwise fun m n => xs.idxOf m < xs.idxOf n := by
  induction xs using List.reverseRecOn with
  | nil => simp
  | append_singleton xs n ih =>
    -- the elements of `xs` first occur in front of the last one
    have hinit : xs.eraseDups.Pairwise fun m k => (xs ++ [n]).idxOf m < (xs ++ [n]).idxOf k := by
      refine ih.imp_of_mem fun {m k} hm hk hlt => ?_
      rw [List.mem_eraseDups] at hm hk
      rwa [List.idxOf_append_of_mem hm, List.idxOf_append_of_mem hk]
    rw [eraseDups_concat]
    split
    · exact hinit
    · rename_i hn
      refine List.pairwise_append.2 ⟨hinit, List.pairwise_singleton _ n, fun m hm k hk => ?_⟩
      rw [List.mem_eraseDups] at hm
      rw [List.mem_singleton.1 hk, List.idxOf_append_of_mem hm, List.idxOf_append_of_notMem hn]
      exact Nat.lt_add_right _ (List.idxOf_lt_length_of_mem hm)

theorem head?_eraseDups (xs : List α) : xs.eraseDups.head? = xs.head? := by
  cases xs with
  | nil => rfl
  | cons n xs => rw [List.eraseDups_cons, List.head?_cons, List.head?_cons]

end Lists

/-! ### The occurrences in each tree -/

@[simp]
theorem occurrences_num (v : Float) : (num v).occurrences = [] := rfl

@[simp]
theorem occurrences_var (n : String) : (var n).occurrences = [n] := rfl

@[simp]
theorem occurrences_signed (s : Sign) (x : Expr) :
    (signed s x).occurrences = x.occurrences := by
  simp [occurrences, nodes, List.filterMap_cons, Node.varName?]

@[simp]
theorem occurrences_arith (op : Arith) (l r : Expr) :
    (arith op l r).occurrences = l.occurrences ++ r.occurrences := by
  simp [occurrences, nodes, List.filterMap_cons, Node.varName?]

@[simp]
theorem occurrences_compare (op : Comparison) (l r : Expr) :
    (compare op l r).occurrences = l.occurrences ++ r.occurrences := by
  simp [occurrences, nodes, List.filterMap_cons, Node.varName?]

@[simp]
theorem occurrences_choice (c t e : Expr) :
    (choice c t e).occurrences = c.occurrences ++ t.occurrences ++ e.occurrences := by
  simp [occurrences, nodes, List.filterMap_cons, Node.varName?]

@[simp]
theorem occurrences_call (name : String) (args : List Expr) :
    (call name args).occurrences = args.flatMap occurrences := by
  have hall : (nodesAll args).filterMap Node.varName? = args.flatMap occurrences := by
    induction args with
    | nil => rfl
    | cons x args ih => rw [nodesAll, List.filterMap_append, ih, List.flatMap_cons, occurrences]
  rw [occurrences, nodes, List.filterMap_append, hall]
  exact List.append_nil _

/-! ### The walk -/

theorem varsAfterAll_eraseDups {args : List Expr}
    (h : ∀ x ∈ args, ∀ xs : List String,
      varsAfter xs.eraseDups x = (xs ++ x.occurrences).eraseDups) (xs : List String) :
    varsAfterAll xs.eraseDups args = (xs ++ args.flatMap occurrences).eraseDups := by
  induction args generalizing xs with
  | nil => rw [varsAfterAll, List.flatMap_nil, List.append_nil]
  | cons x args ih =>
    obtain ⟨hx, hargs⟩ := List.forall_mem_cons.1 h
    rw [varsAfterAll, hx, ih hargs, List.flatMap_cons, List.append_assoc]

/-- The walk goes from the names so far to the names so far and those of the tree, both without
repetitions. -/
theorem varsAfter_eraseDups (e : Expr) (xs : List String) :
    varsAfter xs.eraseDups e = (xs ++ e.occurrences).eraseDups := by
  induction e generalizing xs with
  | num v => rw [varsAfter, occurrences_num, List.append_nil]
  | var n =>
    simp only [varsAfter, List.mem_eraseDups]
    rw [occurrences_var, eraseDups_concat]
  | signed s x ih => rw [varsAfter, ih, occurrences_signed]
  | arith op l r ihl ihr => rw [varsAfter, ihl, ihr, occurrences_arith, List.append_assoc]
  | compare op l r ihl ihr => rw [varsAfter, ihl, ihr, occurrences_compare, List.append_assoc]
  | choice c t e ihc iht ihe =>
    rw [varsAfter, ihc, iht, ihe, occurrences_choice, List.append_assoc, List.append_assoc,
      List.append_assoc]
  | call name args ih => rw [varsAfter, varsAfterAll_eraseDups ih, occurrences_call]

theorem vars_eq_eraseDups (e : Expr) : e.vars = e.occurrences.eraseDups :=
  varsAfter_eraseDups e []

/-- **The variables of a tree are its occurrences without repetitions.**  Each name is listed once,
the names are those of the nodes that are variables, wherever these stand, and they are in the order
in which they first occur from left to right.  So the variable of a curve is the first to occur. -/
theorem vars_exact (e : Expr) :
    e.vars.Nodup ∧ (∀ n, n ∈ e.vars ↔ .var n ∈ e.nodes) ∧ e.vars = e.occurrences.eraseDups ∧
      (e.vars.Pairwise fun m n => e.occurrences.idxOf m < e.occurrences.idxOf n) ∧
      e.vars.head? = e.occurrences.head? := by
  refine ⟨nodup_vars e, fun n => (var_mem_nodes_iff e).symm, vars_eq_eraseDups e, ?_, ?_⟩
  · rw [vars_eq_eraseDups]
    exact pairwise_idxOf_eraseDups e.occurrences
  · rw [vars_eq_eraseDups, head?_eraseDups]

/-- The variables of `x + f(y, x) * z`. -/
example : (arith .add (var "x") (arith .mul (call "f" [var "y", var "x"]) (var "z"))).vars =
    ["x", "y", "z"] := by decide

end Expr

end Formula
