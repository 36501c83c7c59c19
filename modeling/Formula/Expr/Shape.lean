import Formula.Expr.Vars

/-!
# Shapes of trees

The trees that are read from formulas have a simple shape: a function has one argument, and a
conditional is a whole tree or does not occur.

* `Expr.nums` lists the numbers of a tree.
* `Expr.Plain` and `Expr.Shaped` describe the trees of this shape, with conditions on the numbers
  and names at their leaves.
-/

namespace Formula

namespace Expr

mutual

/-- The numbers of the tree from left to right. -/
def nums : Expr → List Float
  | num v => [v]
  | var _ => []
  | signed _ x => x.nums
  | arith _ l r | compare _ l r => l.nums ++ r.nums
  | choice c t e => c.nums ++ t.nums ++ e.nums
  | call _ args => numsAll args

/-- The numbers of several trees. -/
def numsAll : List Expr → List Float
  | [] => []
  | x :: xs => x.nums ++ numsAll xs

end

/-- Conditions on the numbers of a tree, on its variables and on the functions it calls. -/
structure Leaves where
  num : Float → Prop
  var : String → Prop
  func : String → Prop

/-- The tree has no conditional, its functions have one argument, and its leaves are as asked. -/
inductive Plain (L : Leaves) : Expr → Prop
  | num {v : Float} : L.num v → Plain L (num v)
  | var {n : String} : L.var n → Plain L (var n)
  | signed {s : Sign} {x : Expr} : Plain L x → Plain L (signed s x)
  | arith {op : Arith} {l r : Expr} : Plain L l → Plain L r → Plain L (arith op l r)
  | compare {op : Comparison} {l r : Expr} : Plain L l → Plain L r → Plain L (compare op l r)
  | call {name : String} {x : Expr} : L.func name → Plain L x → Plain L (call name [x])

/-- The tree is plain, or a conditional with three plain parts. -/
inductive Shaped (L : Leaves) : Expr → Prop
  | plain {e : Expr} : Plain L e → Shaped L e
  | choice {c t e : Expr} : Plain L c → Plain L t → Plain L e → Shaped L (choice c t e)

variable {L : Leaves} {e : Expr} {n : String} {v : Float}

theorem Plain.of_mem_vars (h : Plain L e) (hn : n ∈ e.vars) : L.var n := by
  induction h with
  | num _ => cases hn
  | var hvar =>
    rw [vars_var, List.mem_singleton] at hn
    rwa [hn]
  | signed _ ih => exact ih hn
  | arith _ _ ihl ihr => exact (mem_vars_arith.1 hn).elim ihl ihr
  | compare _ _ ihl ihr => exact (mem_vars_compare.1 hn).elim ihl ihr
  | call _ _ ih =>
    obtain ⟨x, hx, hn⟩ := mem_vars_call.1 hn
    rw [List.mem_singleton.1 hx] at hn
    exact ih hn

theorem Shaped.of_mem_vars (h : Shaped L e) (hn : n ∈ e.vars) : L.var n := by
  cases h with
  | plain h => exact h.of_mem_vars hn
  | choice hc ht he =>
    rcases mem_vars_choice.1 hn with hn | hn | hn
    · exact hc.of_mem_vars hn
    · exact ht.of_mem_vars hn
    · exact he.of_mem_vars hn

theorem mem_numsAll {xs : List Expr} : v ∈ numsAll xs ↔ ∃ x ∈ xs, v ∈ x.nums := by
  induction xs with
  | nil => simp [numsAll]
  | cons x xs ih =>
    simp only [numsAll, List.mem_append, ih, List.mem_cons, or_and_right, exists_or,
      exists_eq_left]

theorem nums_call_one (name : String) (x : Expr) : (call name [x]).nums = x.nums := by
  rw [nums, numsAll, numsAll, List.append_nil]

theorem Plain.of_mem_nums (h : Plain L e) (hv : v ∈ e.nums) : L.num v := by
  induction h with
  | num hnum =>
    rw [nums, List.mem_singleton] at hv
    rwa [hv]
  | var _ => cases hv
  | signed _ ih => exact ih hv
  | arith _ _ ihl ihr | compare _ _ ihl ihr => exact (List.mem_append.1 hv).elim ihl ihr
  | call _ _ ih =>
    rw [nums_call_one] at hv
    exact ih hv

theorem Shaped.of_mem_nums (h : Shaped L e) (hv : v ∈ e.nums) : L.num v := by
  cases h with
  | plain h => exact h.of_mem_nums hv
  | choice hc ht he =>
    simp only [nums, List.mem_append] at hv
    rcases hv with (hv | hv) | hv
    · exact hc.of_mem_nums hv
    · exact ht.of_mem_nums hv
    · exact he.of_mem_nums hv

end Expr

end Formula
