import Formula.Proofs.Folding

/-!
# Folding computes all there is to compute

One pass from the leaves up is enough.  A tree has a value without bindings just if it folds to that
value, and what is left of a tree has no part that could still be computed: an operation whose
operands are numbers is left only if it has no value, and a conditional only if its test is no
number.

* `Expr.operands` and `Expr.Within` are the parts of a tree, at any depth.
* `Expr.Settled` says that nothing is left to compute at the root, and `Expr.Folded` that nothing is
  left anywhere.
* `Expr.folded_collapse` (one step) and `Expr.folded_fold`: the folded tree is in this form.
* `Expr.fold_of_folded`: folding changes nothing in a tree of this form.
* **`Expr.fold_complete`**: folding finds the value of every tree that has one without bindings, at
  the root and in all parts, and folding twice is folding once.
-/

namespace Formula

theorem Outcome.bind_eq_ok_iff {y : Outcome} {f : Float → Outcome} {v : Float} :
    y >>= f = .ok v ↔ ∃ w, y = .ok w ∧ f w = .ok v := by
  cases y <;> simp [bind, Except.bind]

namespace Expr

/-! ### The parts of a tree -/

/-- The operands of the root. -/
def operands : Expr → List Expr
  | num _ | var _ => []
  | signed _ x => [x]
  | arith _ l r | compare _ l r => [l, r]
  | choice c t e => [c, t, e]
  | call _ args => args

/-- `s` is the tree or a part of it, at any depth. -/
inductive Within (s : Expr) : Expr → Prop
  | whole : Within s s
  | operand {e x : Expr} : x ∈ e.operands → Within s x → Within s e

/-- The root takes the values of all its operands. -/
def isOperation : Expr → Bool
  | signed _ _ | arith _ _ _ | compare _ _ _ | call _ _ => true
  | num _ | var _ | choice _ _ _ => false

variable {b : Bindings} {e x : Expr} {v : Float}

theorem isClosed_eq (e : Expr) : e.isClosed = (e.isOperation && e.operands.all isNum) := by
  cases e <;> simp [isClosed, isOperation, operands]

/-- An operation that has a value has operands that have values. -/
theorem exists_eval_of_mem_operands (hop : e.isOperation = true) (h : eval b e = .ok v)
    (hx : x ∈ e.operands) : ∃ w, eval b x = .ok w := by
  cases e with
  | signed s y =>
    obtain ⟨w, hw, -⟩ := Outcome.bind_eq_ok_iff.1 h
    rw [List.mem_singleton.1 hx]
    exact ⟨w, hw⟩
  | arith op l r | compare op l r =>
    obtain ⟨w, hw, h⟩ := Outcome.bind_eq_ok_iff.1 h
    obtain ⟨w', hw', -⟩ := Outcome.bind_eq_ok_iff.1 h
    simp only [operands, List.mem_cons, List.not_mem_nil, or_false] at hx
    rcases hx with rfl | rfl
    · exact ⟨w, hw⟩
    · exact ⟨w', hw'⟩
  | call name args =>
    -- a call of a number of arguments other than one has no value
    obtain _ | ⟨y, _ | ⟨z, args⟩⟩ := args
    · cases hx
    · simp only [eval] at h
      split at h
      · cases h
      · obtain ⟨w, hw, -⟩ := Outcome.bind_eq_ok_iff.1 h
        rw [List.mem_singleton.1 hx]
        exact ⟨w, hw⟩
    · simp only [eval] at h
      split at h <;> cases h
  | _ => cases hop

/-! ### Nothing left to compute -/

/-- Nothing is left to compute at the root: a value is a number, and no number decides a
conditional. -/
structure Settled (e : Expr) : Prop where
  eq_num : ∀ v, e.eval Bindings.none = .ok v → e = num v
  ne_choice : ∀ v t n, e ≠ choice (num v) t n

/-- Nothing is left to compute in any part of the tree. -/
def Folded (e : Expr) : Prop := ∀ s, Within s e → Settled s

theorem Folded.settled (h : Folded e) : Settled e := h e .whole

theorem Folded.of_mem_operands (h : Folded e) (hx : x ∈ e.operands) : Folded x :=
  fun s hs => h s (.operand hx hs)

theorem folded_of_operands (h : Settled e) (hops : ∀ x ∈ e.operands, Folded x) : Folded e := by
  intro s hs
  cases hs with
  | whole => exact h
  | operand hx hs => exact hops _ hx s hs

theorem settled_num (v : Float) : Settled (num v) where
  eq_num w h := by
    cases h
    rfl
  ne_choice := by simp

theorem folded_num (v : Float) : Folded (num v) :=
  folded_of_operands (settled_num v) (by simp [operands])

theorem folded_var (n : String) : Folded (var n) := by
  refine folded_of_operands ⟨?_, by simp⟩ (by simp [operands])
  intro v h
  cases h

/-! ### Folding leaves nothing -/

/-- An operation that has a value is closed once its operands are settled. -/
theorem isClosed_of_eval (hop : e.isOperation = true) (hops : ∀ x ∈ e.operands, Settled x)
    (h : e.eval Bindings.none = .ok v) : e.isClosed = true := by
  rw [isClosed_eq, hop, Bool.true_and, List.all_eq_true]
  intro x hx
  obtain ⟨w, hw⟩ := exists_eval_of_mem_operands hop h hx
  rw [(hops x hx).eq_num w hw]
  rfl

/-- **One step leaves nothing to compute** if its operands leave nothing. -/
theorem folded_collapse (hop : e.isOperation = true) (hops : ∀ x ∈ e.operands, Folded x) :
    Folded e.collapse := by
  by_cases hvalue : ∃ v, e.eval Bindings.none = .ok v
  · obtain ⟨v, hv⟩ := hvalue
    have hclosed := isClosed_of_eval hop (fun x hx => (hops x hx).settled) hv
    have hcollapse : e.collapse = num v := by
      simp only [collapse, hclosed, hv, ↓reduceIte]
    rw [hcollapse]
    exact folded_num v
  · obtain h | ⟨v, -, hv⟩ := collapse_eq Bindings.none e
    · rw [h]
      refine folded_of_operands ⟨?_, ?_⟩ hops
      · intro v hv
        exact absurd ⟨v, hv⟩ hvalue
      · rintro v t n rfl
        cases hop
    · exact absurd ⟨v, hv⟩ hvalue

/-- **Folding leaves nothing to compute.** -/
theorem folded_fold (e : Expr) : Folded e.fold := by
  induction e with
  | num v => exact folded_num v
  | var n => exact folded_var n
  | signed s x ih =>
    exact folded_collapse rfl (by simpa [operands] using ih)
  | arith op l r ihl ihr | compare op l r ihl ihr =>
    exact folded_collapse rfl (by simpa [operands] using ⟨ihl, ihr⟩)
  | choice c t e ihc iht ihe =>
    by_cases hnum : ∃ v, c.fold = num v
    · obtain ⟨v, hv⟩ := hnum
      rw [fold_choice_of_eq_num hv]
      split
      · exact iht
      · exact ihe
    · rw [fold_choice_of_ne_num (not_exists.1 hnum)]
      refine folded_of_operands ⟨?_, ?_⟩ (by simpa [operands] using ⟨ihc, iht, ihe⟩)
      · intro v h
        -- the test has a value, so that it would be a number
        obtain ⟨w, hw, -⟩ := Outcome.bind_eq_ok_iff.1 h
        exact absurd ⟨w, ihc.settled.eq_num w hw⟩ hnum
      · intro v t' n' h
        exact absurd ⟨v, (choice.inj h).1⟩ hnum
  | call name args ih =>
    rw [fold, foldAll_eq_map]
    exact folded_collapse rfl (by simpa [operands] using ih)

/-! ### Folding once more -/

theorem collapse_of_settled (h : Settled e) : e.collapse = e := by
  obtain he | ⟨v, he, hv⟩ := collapse_eq Bindings.none e
  · exact he
  · rw [he, h.eq_num v hv]

/-- Folding changes nothing where nothing is left to compute. -/
theorem fold_of_folded (h : Folded e) : e.fold = e := by
  induction e with
  | num v | var n => rfl
  | signed s x ih =>
    rw [fold, ih (h.of_mem_operands (by simp [operands])), collapse_of_settled h.settled]
  | arith op l r ihl ihr | compare op l r ihl ihr =>
    rw [fold, ihl (h.of_mem_operands (by simp [operands])),
      ihr (h.of_mem_operands (by simp [operands])), collapse_of_settled h.settled]
  | choice c t e ihc iht ihe =>
    have hc : c.fold = c := ihc (h.of_mem_operands (by simp [operands]))
    have hnum : ∀ v, c.fold ≠ num v := by
      rintro v hv
      rw [hc] at hv
      exact h.settled.ne_choice v t e (by rw [hv])
    rw [fold_choice_of_ne_num hnum, hc, iht (h.of_mem_operands (by simp [operands])),
      ihe (h.of_mem_operands (by simp [operands]))]
  | call name args ih =>
    have hargs : args.map fold = args := by
      rw [List.map_congr_left fun x hx => ih x hx (h.of_mem_operands hx), List.map_id']
    rw [fold, foldAll_eq_map, hargs, collapse_of_settled h.settled]

/-- **Folding finds all that has a value.**  A tree folds to a number just if that is its value
without bindings.  In the folded tree, at any depth, a part that has a value without bindings is a
number, no conditional has a number for its test, and an operation on numbers fails.  Folding once
more changes nothing. -/
theorem fold_complete (e : Expr) :
    (∀ v, e.fold = num v ↔ e.eval Bindings.none = .ok v) ∧
      (∀ s, Within s e.fold →
        (∀ v, s.eval Bindings.none = .ok v → s = num v) ∧
        (∀ v t n, s ≠ choice (num v) t n) ∧
        (s.isClosed = true → ∃ err, s.eval Bindings.none = .error err)) ∧
      e.fold.fold = e.fold := by
  have hfolded := folded_fold e
  refine ⟨?_, ?_, fold_of_folded hfolded⟩
  · intro v
    rw [← eval_fold]
    constructor
    · intro h
      rw [h]
      rfl
    · exact hfolded.settled.eq_num v
  · intro s hs
    have hsettled := hfolded s hs
    refine ⟨hsettled.eq_num, hsettled.ne_choice, ?_⟩
    intro hclosed
    cases heval : s.eval Bindings.none with
    | error err => exact ⟨err, rfl⟩
    | ok v =>
      rw [hsettled.eq_num v heval] at hclosed
      cases hclosed

/-- `1 < 2 ? 3 : y` folds to its value, next to a branch that has none.  What `x + 1 / 0` keeps of
its numbers is a quotient that fails. -/
theorem fold_complete_branch :
    (choice (compare .lt (num 1) (num 2)) (num 3) (var "y")).fold = num 3 ∧
      ∃ s, Within s (arith .add (var "x") (arith .div (num 1) (num 0))).fold ∧
        s.isClosed = true ∧ ∃ err, s.eval Bindings.none = .error err := by
  refine ⟨((fold_complete _).1 3).2 (by rfl), arith .div (num 1) (num 0), ?_⟩
  have hwithin : Within (arith .div (num 1) (num 0))
      (arith .add (var "x") (arith .div (num 1) (num 0))).fold :=
    .operand (List.mem_cons_of_mem _ List.mem_cons_self) .whole
  exact ⟨hwithin, rfl, ((fold_complete _).2.1 _ hwithin).2.2 rfl⟩

end Expr

end Formula
