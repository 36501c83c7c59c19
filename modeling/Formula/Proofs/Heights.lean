import Mathlib.Logic.Function.Iterate
import Formula.Proofs.Postorder

/-!
# Trees that are too high

A tree that tokens list in postfix order is built unless it is higher than `Expr.maxHeight`.  Then
building fails at the first token that completes a tree which is too high: every tree that is listed
on the way lies on top of the stack once its last token has been read.

* `Postorder.EndsAt` relates a position among tokens to the tree that ends there.  This is the one
  on top of the stack (`Expr.exists_cons_of_endsAt`, `Expr.endsAt_of_formed`).
* `Expr.run_cases`: the bounded run succeeds like the unbounded one, or fails at the first tree that
  is too high.
* **`Expr.ofPostfix_postorder`**: building a tree undoes listing it if it is not too high, and fails
  at the first position where a tree ends that is.
-/

namespace Formula

/-- The tokens up to position `i` end with the tokens that list the tree. -/
def Postorder.EndsAt (ts : List Token) (i : Nat) (x : Expr) : Prop :=
  ∃ us vs ws, ts = us ++ vs ++ ws ∧ us.length + vs.length = i + 1 ∧ Postorder vs x

/-- The latest tree of the stack is listed last. -/
theorem Listed.exists_append {ts : List Token} {e : Expr} {stack : List Expr}
    (h : Listed ts (e :: stack)) :
    ∃ us vs, ts = us ++ vs ∧ Listed us stack ∧ Postorder vs e := by
  cases h with
  | cons hlist hpost => exact ⟨_, _, rfl, hlist, hpost⟩

namespace Expr

open Postorder (EndsAt)

variable {index i : Nat} {t : Token} {f f' : Forest} {stack stack' mid rest : List Expr}
  {ts us : List Token} {e x : Expr}

/-! ### The tree at a position -/

/-- A run over tokens starts with a run over the first of them. -/
theorem exists_formed_of_append (h : formed index stack (ts ++ us) = .ok stack') :
    ∃ mid, formed index stack ts = .ok mid ∧ formed (index + ts.length) mid us = .ok stack' := by
  induction ts generalizing index stack with
  | nil => exact ⟨stack, rfl, h⟩
  | cons t ts ih =>
    rw [List.cons_append] at h
    cases hr : reduce index t stack with
    | error err =>
      simp only [formed, hr] at h
      cases h
    | ok r =>
      obtain ⟨e, rest⟩ := r
      rw [formed_cons hr] at h
      obtain ⟨mid, hmid, hrest⟩ := ih h
      refine ⟨mid, by rw [formed_cons hr, hmid], ?_⟩
      rwa [List.length_cons, ← Nat.add_assoc, Nat.add_right_comm]

/-- The bounded run starts in the same way. -/
theorem exists_run_of_append (h : run index f (ts ++ us) = .ok f') :
    ∃ mid, run index f ts = .ok mid := by
  rw [run_append] at h
  cases hrun : run index f ts with
  | error err =>
    rw [hrun] at h
    cases h
  | ok mid => exact ⟨mid, rfl⟩

/-- A tree that ends at a position is on top of the stack there. -/
theorem exists_cons_of_endsAt (hx : EndsAt (ts ++ us) i x) (hlength : ts.length = i + 1)
    (h : formed 0 [] ts = .ok stack) : ∃ rest, stack = x :: rest := by
  obtain ⟨before, vs, after, happend, hi, hpost⟩ := hx
  obtain ⟨rfl, -⟩ := List.append_inj happend (by rw [List.length_append, hi, hlength])
  obtain ⟨mid, -, hvs⟩ := exists_formed_of_append h
  rw [hpost.formed, Except.ok.injEq] at hvs
  exact ⟨mid, hvs.symm⟩

/-- The tree on top of the stack at a position ends there. -/
theorem endsAt_of_formed (h : formed 0 [] ts = .ok (x :: rest)) (hlength : ts.length = i + 1)
    (us : List Token) : EndsAt (ts ++ us) i x := by
  obtain ⟨before, vs, rfl, -, hpost⟩ := (Listed.nil.formed h).exists_append
  rw [List.length_append] at hlength
  exact ⟨before, vs, us, rfl, hlength, hpost⟩

/-! ### The first tree that is too high -/

theorem step_of_too_high (h : reduce index t stack = .ok (e, rest)) (hhigh : maxHeight < e.height) :
    step index t (.ofTrees stack) = .error (.tooHigh index) := by
  simp only [step_ofTrees, h, if_neg (Nat.not_le.2 hhigh)]

/-- **The bound on the height shows at the first tree that is too high.**  Up to there the bounded
run is a run, and if there is no such tree it succeeds. -/
theorem run_cases (h : formed index stack ts = .ok stack') :
    run index (.ofTrees stack) ts = .ok (.ofTrees stack') ∨
      ∃ us t vs mid e rest, ts = us ++ t :: vs ∧
        run index (.ofTrees stack) us = .ok (.ofTrees mid) ∧
        reduce (index + us.length) t mid = .ok (e, rest) ∧ maxHeight < e.height ∧
        run index (.ofTrees stack) ts = .error (.tooHigh (index + us.length)) := by
  induction ts generalizing index stack with
  | nil =>
    cases h
    exact .inl rfl
  | cons t ts ih =>
    cases hr : reduce index t stack with
    | error err =>
      simp only [formed, hr] at h
      cases h
    | ok r =>
      obtain ⟨e, rest⟩ := r
      rw [formed_cons hr] at h
      by_cases hle : e.height ≤ maxHeight
      · have hrun (us : List Token) :
            run index (.ofTrees stack) (t :: us) = run (index + 1) (.ofTrees (e :: rest)) us := by
          simp only [run, step_of_reduce hr hle]
          rfl
        obtain hok | ⟨us, t', vs, mid, e', rest', rfl, hmid, hr', hhigh, herr⟩ := ih h
        · exact .inl (by rw [hrun, hok])
        · have hindex : index + 1 + us.length = index + (t :: us).length := by
            rw [List.length_cons]
            omega
          rw [hindex] at hr' herr
          exact .inr ⟨t :: us, t', vs, mid, e', rest', rfl, by rw [hrun, hmid], hr', hhigh,
            by rw [hrun, herr]⟩
      · have hhigh := Nat.lt_of_not_le hle
        refine .inr ⟨[], t, ts, stack, e, rest, rfl, rfl, hr, hhigh, ?_⟩
        simp only [run, step_of_too_high hr hhigh]
        rfl

/-- A tree that ends before the position that a bounded run has reached is not too high. -/
theorem height_le_of_endsAt {j : Nat} (hx : EndsAt (us ++ ts) j x) (hj : j < us.length)
    (h : run 0 (.ofTrees []) us = .ok f) : x.height ≤ maxHeight := by
  rw [← List.take_append_drop (j + 1) us] at h hx
  have hlength : (us.take (j + 1)).length = j + 1 := by
    rw [List.length_take]
    omega
  obtain ⟨f, hstack⟩ := exists_run_of_append h
  obtain ⟨stack, rfl⟩ := exists_trees_of_run hstack
  rw [List.append_assoc] at hx
  obtain ⟨rest, rfl⟩ := exists_cons_of_endsAt hx hlength (formed_of_run hstack)
  refine height_le_of_run hstack ?_
  rw [ne_eq, ← List.length_eq_zero_iff]
  omega

/-- **Building undoes listing, up to a height.**  Tokens build a tree just if they list it and it is
not too high.  Tokens that list a tree which is too high are refused at the first position where a
tree ends that is too high. -/
theorem ofPostfix_postorder (ts : List Token) (e : Expr) :
    (ofPostfix ts = .ok e ↔ Postorder ts e ∧ e.height ≤ maxHeight) ∧
      (Postorder ts e → maxHeight < e.height →
        ∃ i, ofPostfix ts = .error (.tooHigh i) ∧
          (∃ x, EndsAt ts i x ∧ maxHeight < x.height) ∧
          ∀ j < i, ∀ x, EndsAt ts j x → x.height ≤ maxHeight) := by
  refine ⟨ofPostfix_eq_ok_iff, ?_⟩
  intro hpost hhigh
  obtain hrun | ⟨us, t, vs, mid, x, rest, rfl, hmid, hr, hx, hrun⟩ := run_cases (hpost.formed 0 [])
  · have hle := height_le_of_run hrun hpost.ne_nil
    omega
  · rw [Nat.zero_add] at hr hrun
    refine ⟨us.length, ?_, ⟨x, ?_, hx⟩, ?_⟩
    · exact ofPostfix_of_run_eq_error hrun
    · have hformed : formed 0 [] (us ++ [t]) = .ok (x :: rest) := by
        rw [formed_append (formed_of_run hmid), Nat.zero_add, formed_cons hr]
        rfl
      have hends := endsAt_of_formed hformed (by rw [List.length_append, List.length_singleton]) vs
      rwa [List.append_assoc, List.singleton_append] at hends
    · intro j hj y hy
      exact height_le_of_endsAt hy hj hmid

/-- The variable `x` under `n` signs. -/
theorem postorder_signs (n : Nat) :
    Postorder (⟨.var, "x", 0⟩ :: List.replicate n ⟨.sign .minus, "u-", 0⟩)
      ((signed .minus)^[n] (var "x")) := by
  induction n with
  | zero => exact .var rfl
  | succ n ih =>
    rw [List.replicate_succ', ← List.cons_append, Function.iterate_succ_apply']
    exact .signed rfl ih

theorem height_signs (n : Nat) : ((signed .minus)^[n] (var "x")).height = n + 1 := by
  induction n with
  | zero => rfl
  | succ n ih => rw [Function.iterate_succ_apply', height, ih, Nat.add_comm]

/-- Of 512 signs the last one forms a tree that is too high. -/
theorem ofPostfix_postorder_signs :
    ofPostfix (⟨.var, "x", 0⟩ :: List.replicate 512 ⟨.sign .minus, "u-", 0⟩) =
      .error (.tooHigh 512) := by
  have hheight : maxHeight < ((signed .minus)^[512] (var "x")).height := by
    rw [height_signs]
    decide
  obtain ⟨i, herror, ⟨x, hx, hhigh⟩, -⟩ := (ofPostfix_postorder _ _).2 (postorder_signs 512) hheight
  have hi : i ≤ 512 := by
    obtain ⟨us, vs, ws, happend, hlength, -⟩ := hx
    have htotal := congrArg List.length happend
    simp only [List.length_cons, List.length_replicate, List.length_append] at htotal
    omega
  -- the tree that ends at position `i` has `i` signs
  have hsplit : List.replicate 512 (⟨.sign .minus, "u-", 0⟩ : Token) =
      List.replicate i ⟨.sign .minus, "u-", 0⟩ ++
        List.replicate (512 - i) ⟨.sign .minus, "u-", 0⟩ := by
    rw [List.replicate_append_replicate, Nat.add_sub_cancel' hi]
  rw [hsplit, ← List.cons_append] at hx
  obtain ⟨rest, hstack⟩ := exists_cons_of_endsAt hx
    (by rw [List.length_cons, List.length_replicate]) ((postorder_signs i).formed 0 [])
  cases hstack
  rw [height_signs, maxHeight] at hhigh
  obtain rfl : i = 512 := by omega
  exact herror

end Expr

end Formula
