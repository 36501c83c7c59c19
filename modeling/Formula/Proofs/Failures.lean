import Mathlib
import Formula.Proofs.Heights

/-!
# Where building fails

Building a tree fails at the first token that cannot be applied.  What comes after that token does
not matter, and the tokens before it build trees.  If every token can be applied, as many trees are
left as there are more tokens than operands.

* `BuildError.index?` and `BuildError.text?` are the token that a failure is about.
* `Expr.error_of_step` and `Expr.length_of_step`: what one token does.
* `Expr.exists_of_run_eq_error` and `Expr.length_of_run`: what a run does.
* `Expr.exists_of_ofPostfix_eq_error` and `Expr.ofPostfix_of_index?`: what is built, with a failure
  at a token and without one.
* **`Expr.ofPostfix_failure`**: a failure at a token is that of all tokens which begin in the same
  way, and every shorter beginning builds one tree or leaves several.
-/

namespace Formula

/-- The number of the token that the failure is about, if it is about one. -/
def BuildError.index? : BuildError → Option Nat
  | missingOperand _ index | badNumber _ index | misplaced _ index | tooHigh index => some index
  | empty | leftover _ => none

/-- The text of a token that the failure quotes. -/
def BuildError.text? : BuildError → Option String
  | missingOperand text _ | badNumber text _ | misplaced text _ => some text
  | empty | leftover _ | tooHigh _ => none

namespace Expr

variable {index : Nat} {t : Token} {f f' : Forest} {stack rest : List Expr} {ts : List Token}
  {e : Expr} {err : BuildError}

/-! ### One token -/

theorem error_of_reduce (h : reduce index t stack = .error err) :
    err.index? = some index ∧ ∀ s ∈ err.text?, s = t.text := by
  unfold reduce at h
  split at h <;> try cases h
  · split at h <;> cases h
    exact ⟨rfl, by rintro s ⟨⟩; rfl⟩
  all_goals exact ⟨rfl, by rintro s ⟨⟩; rfl⟩

/-- A token that fails is named by its failure. -/
theorem error_of_step (h : step index t f = .error err) :
    err.index? = some index ∧ ∀ s ∈ err.text?, s = t.text := by
  obtain ⟨err', hr, herr⟩ | ⟨e, rest, -, ⟨hs, hok⟩ | hhigh⟩ := step_cases index t f
  · rw [herr] at h
    cases h
    exact error_of_reduce hr
  · rw [hok] at h
    cases h
  · rw [hhigh] at h
    cases h
    exact ⟨rfl, by rintro s ⟨⟩⟩

theorem length_of_reduce (h : reduce index t stack = .ok (e, rest)) :
    rest.length + t.arity = stack.length := by
  obtain ⟨hle, rfl, -⟩ := reduce_eq_drop h
  rw [List.length_drop, Nat.sub_add_cancel hle]

/-- A token puts one tree in the place of its operands. -/
theorem length_of_step (h : step index t f = .ok f') :
    f'.trees.length + t.arity = f.trees.length + 1 := by
  obtain ⟨e, rest, hr, htrees⟩ := exists_reduce_of_step h
  have hlength := length_of_reduce hr
  rw [htrees, List.length_cons]
  omega

/-! ### A run -/

/-- A run that fails does so at one token, and runs up to there. -/
theorem exists_of_run_eq_error (h : run index f ts = .error err) :
    ∃ us t vs mid, ts = us ++ t :: vs ∧ run index f us = .ok mid ∧
      step (index + us.length) t mid = .error err := by
  induction ts generalizing index f with
  | nil => cases h
  | cons t ts ih =>
    simp only [run, bind, Except.bind] at h
    split at h
    · cases h
      exact ⟨[], t, ts, f, rfl, rfl, ‹_›⟩
    · have hstep := ‹step index t f = _›
      obtain ⟨us, u, vs, mid, rfl, hmid, herr⟩ := ih h
      refine ⟨t :: us, u, vs, mid, rfl, ?_, ?_⟩
      · simp only [run, hstep, bind, Except.bind, hmid]
      · rwa [List.length_cons, Nat.add_comm us.length, ← Nat.add_assoc]

/-- A run fails where one of its tokens does, whatever comes after it. -/
theorem run_eq_error (hmid : run index f ts = .ok f')
    (h : step (index + ts.length) t f' = .error err) (us : List Token) :
    run index f (ts ++ t :: us) = .error err := by
  rw [run_append, hmid]
  simp only [Except.bind, run, h, bind]

/-- As many trees are left as there are more tokens than operands. -/
theorem length_of_run (h : run index f ts = .ok f') :
    f'.trees.length + (ts.map Token.arity).sum = f.trees.length + ts.length := by
  induction ts generalizing index f with
  | nil =>
    cases h
    rfl
  | cons t ts ih =>
    simp only [run, bind, Except.bind] at h
    split at h
    · cases h
    · have hstep := length_of_step ‹step index t f = _›
      have hrest := ih h
      rw [List.map_cons, List.sum_cons, List.length_cons]
      omega

/-! ### The tree -/

/-- A failure that is about a token is that of the token, after the ones before it have been run. -/
theorem exists_of_ofPostfix_eq_error (h : ofPostfix ts = .error err)
    (hi : err.index? = some index) :
    ∃ us t vs f, ts = us ++ t :: vs ∧ us.length = index ∧ run 0 ⟨[], []⟩ us = .ok f ∧
      step index t f = .error err := by
  have hne : ts ≠ [] := by
    rintro rfl
    cases h
    cases hi
  cases hrun : run 0 ⟨[], []⟩ ts with
  | error err' =>
    obtain rfl : err' = err := by
      rw [ofPostfix_of_run_eq_error hrun] at h
      exact Except.error.inj h
    obtain ⟨us, t, vs, f, hts, hf, hstep⟩ := exists_of_run_eq_error hrun
    rw [Nat.zero_add] at hstep
    obtain rfl : us.length = index := Option.some.inj ((error_of_step hstep).1.symm.trans hi)
    exact ⟨us, t, vs, f, hts, rfl, hf, hstep⟩
  | ok f =>
    -- what is left of a run is about no token
    obtain ⟨e, -, he⟩ | ⟨-, hleft⟩ := ofPostfix_of_run hne hrun
    · rw [he] at h
      cases h
    · rw [hleft] at h
      cases h
      cases hi

/-- The beginnings of tokens that can be run build one tree or leave several. -/
theorem ofPostfix_of_run_append {us : List Token} (hts : run 0 ⟨[], []⟩ ts = .ok f)
    (hus : us <+: ts) (hne : us ≠ []) :
    (∃ e, ofPostfix us = .ok e) ∨ ∃ n, ofPostfix us = .error (.leftover n) := by
  obtain ⟨vs, rfl⟩ := hus
  obtain ⟨mid, hmid⟩ := exists_run_of_append hts
  obtain ⟨e, -, he⟩ | ⟨-, hleft⟩ := ofPostfix_of_run hne hmid
  · exact .inl ⟨e, he⟩
  · exact .inr ⟨mid.trees.length, hleft⟩

theorem eq_append_of_take_eq {us vs ws : List Token}
    (h : ws.take (us.length + 1) = (us ++ t :: vs).take (us.length + 1)) :
    ws = us ++ t :: ws.drop (us.length + 1) := by
  have htake : (us ++ t :: vs).take (us.length + 1) = us ++ [t] := by
    rw [List.append_cons, List.take_left' (by simp)]
  calc ws = ws.take (us.length + 1) ++ ws.drop (us.length + 1) := by
        rw [List.take_append_drop]
    _ = us ++ t :: ws.drop (us.length + 1) := by
        rw [h, htake, List.append_assoc, List.singleton_append]

/-- What is built if no failure is about a token. -/
theorem ofPostfix_of_index? (h : ∀ err, ofPostfix ts = .error err → err.index? = none) :
    (ts = [] ∧ ofPostfix ts = .error .empty) ∨ (∃ e, ofPostfix ts = .ok e) ∨
      ∃ n, ofPostfix ts = .error (.leftover n) ∧ 2 ≤ n ∧
        n + (ts.map Token.arity).sum = ts.length := by
  by_cases hne : ts = []
  · subst hne
    exact .inl ⟨rfl, rfl⟩
  · cases hrun : run 0 ⟨[], []⟩ ts with
    | error err =>
      -- a run fails at a token only
      obtain ⟨us, t, vs, mid, -, -, hstep⟩ := exists_of_run_eq_error hrun
      have hnone := h err (ofPostfix_of_run_eq_error hrun)
      rw [(error_of_step hstep).1] at hnone
      cases hnone
    | ok f =>
      have hlength := length_of_run hrun
      rw [List.length_nil, Nat.zero_add] at hlength
      obtain ⟨e, -, he⟩ | ⟨hle, hleft⟩ := ofPostfix_of_run hne hrun
      · exact .inr (.inl ⟨e, he⟩)
      · exact .inr (.inr ⟨f.trees.length, hleft, hle, hlength⟩)

/-- **A failure to build is that of the shortest beginning that fails.**  If it is about a token,
then it quotes that token, every shorter beginning of the tokens builds one tree or leaves several,
and all tokens that begin in the same way fail alike.  Otherwise there are no tokens, a tree is
built, or as many trees are left as there are more tokens than operands. -/
theorem ofPostfix_failure (ts : List Token) :
    (∀ err i, ofPostfix ts = .error err → err.index? = some i →
      (∃ t, ts[i]? = some t ∧ ∀ s, err.text? = some s → s = t.text) ∧
      (∀ us, us <+: ts.take i → us ≠ [] →
        (∃ e, ofPostfix us = .ok e) ∨ ∃ n, ofPostfix us = .error (.leftover n)) ∧
      ∀ us : List Token, us.take (i + 1) = ts.take (i + 1) → ofPostfix us = .error err) ∧
    ((∀ err, ofPostfix ts = .error err → err.index? = none) →
      (ts = [] ∧ ofPostfix ts = .error .empty) ∨ (∃ e, ofPostfix ts = .ok e) ∨
        ∃ n, ofPostfix ts = .error (.leftover n) ∧ 2 ≤ n ∧
          n + (ts.map Token.arity).sum = ts.length) := by
  refine ⟨?_, ofPostfix_of_index?⟩
  intro err i herr hi
  obtain ⟨us, t, vs, f, rfl, rfl, hf, hstep⟩ := exists_of_ofPostfix_eq_error herr hi
  refine ⟨⟨t, by simp, (error_of_step hstep).2⟩, ?_, ?_⟩
  · intro ws hws hne
    rw [List.take_left] at hws
    exact ofPostfix_of_run_append hf hws hne
  · intro ws hws
    rw [← Nat.zero_add us.length] at hstep
    rw [eq_append_of_take_eq hws]
    exact ofPostfix_of_run_eq_error (run_eq_error hf hstep _)

/-- All tokens that begin with `2 *` lack an operand there, and of `x x x +` two trees are left. -/
theorem ofPostfix_failure_product :
    (∀ us : List Token, us.take 2 = [⟨.number, "2", 0⟩, ⟨.arith .mul, "*", 2⟩] →
      ofPostfix us = .error (.missingOperand "*" 1)) ∧
    ∃ n, ofPostfix [⟨.var, "x", 0⟩, ⟨.var, "x", 2⟩, ⟨.var, "x", 4⟩, ⟨.arith .add, "+", 6⟩] =
      .error (.leftover n) ∧ 2 ≤ n ∧ n + 2 = 4 := by
  constructor
  · exact ((ofPostfix_failure [⟨.number, "2", 0⟩, ⟨.arith .mul, "*", 2⟩]).1
      (.missingOperand "*" 1) 1 rfl rfl).2.2
  · have hbuild : ofPostfix [⟨.var, "x", 0⟩, ⟨.var, "x", 2⟩, ⟨.var, "x", 4⟩,
        ⟨.arith .add, "+", 6⟩] = .error (.leftover 2) := rfl
    refine ((ofPostfix_failure _).2 ?_).resolve_left (by simp) |>.resolve_left ?_
    · intro err herr
      rw [hbuild] at herr
      cases herr
      rfl
    · rintro ⟨e, he⟩
      rw [hbuild] at he
      cases he

end Expr

end Formula
