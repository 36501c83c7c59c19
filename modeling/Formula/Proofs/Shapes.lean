import Formula.Proofs.Compiling

/-!
# The shape of compiled trees

A tree that is read has a simple shape and is not too high, and folding keeps that: an operation
becomes a number or stays, and a conditional becomes one of its branches or stays.

* `Expr.AtMost` compares the sizes and the heights of trees, and `Expr.atMost_fold` says that
  folding enlarges no tree.
* `Expr.Shaped.fold`: folding keeps the shape of a tree that is read.
* `Expr.ordinary_of_parse`: the numbers of a text are neither NaN nor negative.
* **`Curve.compile_shape`**: so the tree of a curve has a simple shape, is not too high, and has one
  variable at most.
-/

namespace Formula

/-- The number is not NaN, and its sign bit is clear. -/
def Number.Ordinary (v : Float) : Prop := v.isNaN = false ∧ isNegative v = false

namespace Expr

variable {e x x' y z l l' r r' : Expr} {L : Leaves}

/-! ### Folding enlarges no tree -/

/-- The first tree is neither larger nor higher than the second. -/
structure AtMost (x y : Expr) : Prop where
  size : x.size ≤ y.size
  height : x.height ≤ y.height

theorem AtMost.refl (e : Expr) : AtMost e e := ⟨Nat.le_refl _, Nat.le_refl _⟩

theorem AtMost.trans (h : AtMost x y) (h' : AtMost y z) : AtMost x z :=
  ⟨Nat.le_trans h.size h'.size, Nat.le_trans h.height h'.height⟩

theorem AtMost.signed (s : Sign) (h : AtMost x y) : AtMost (signed s x) (signed s y) :=
  ⟨Nat.add_le_add_left h.size 1, Nat.add_le_add_left h.height 1⟩

theorem AtMost.arith (op : Arith) (hl : AtMost l l') (hr : AtMost r r') :
    AtMost (arith op l r) (arith op l' r') :=
  ⟨Nat.add_le_add (Nat.add_le_add_left hl.size 1) hr.size,
    Nat.add_le_add_left (max_le_max hl.height hr.height) 1⟩

theorem AtMost.compare (op : Comparison) (hl : AtMost l l') (hr : AtMost r r') :
    AtMost (compare op l r) (compare op l' r') :=
  ⟨Nat.add_le_add (Nat.add_le_add_left hl.size 1) hr.size,
    Nat.add_le_add_left (max_le_max hl.height hr.height) 1⟩

theorem AtMost.choice (hx : AtMost x x') (hl : AtMost l l') (hr : AtMost r r') :
    AtMost (choice x l r) (choice x' l' r') :=
  ⟨Nat.add_le_add (Nat.add_le_add (Nat.add_le_add_left hx.size 1) hl.size) hr.size,
    Nat.add_le_add_left (max_le_max hx.height (max_le_max hl.height hr.height)) 1⟩

theorem atMost_map {f : Expr → Expr} {args : List Expr} (h : ∀ x ∈ args, AtMost (f x) x) :
    sizeAll (args.map f) ≤ sizeAll args ∧ heightAll (args.map f) ≤ heightAll args := by
  induction args with
  | nil => exact ⟨Nat.le_refl _, Nat.le_refl _⟩
  | cons x xs ih =>
    obtain ⟨hx, hxs⟩ := List.forall_mem_cons.1 h
    obtain ⟨hsize, hheight⟩ := ih hxs
    exact ⟨Nat.add_le_add hx.size hsize, max_le_max hx.height hheight⟩

theorem AtMost.call {f : Expr → Expr} {args : List Expr} (name : String)
    (h : ∀ x ∈ args, AtMost (f x) x) : AtMost (call name (args.map f)) (call name args) :=
  ⟨Nat.add_le_add_left (atMost_map h).1 1, Nat.add_le_add_left (atMost_map h).2 1⟩

/-- A branch is smaller than the conditional. -/
theorem atMost_choice (c t e : Expr) : AtMost t (choice c t e) ∧ AtMost e (choice c t e) := by
  refine ⟨⟨?_, ?_⟩, ⟨?_, ?_⟩⟩ <;>
    · simp only [size, height]
      omega

theorem size_pos (e : Expr) : 0 < e.size := by
  cases e <;> simp only [size] <;> omega

/-- No tree is smaller than a number. -/
theorem atMost_num (v : Float) (e : Expr) : AtMost (num v) e := ⟨e.size_pos, e.height_pos⟩

theorem atMost_collapse (e : Expr) : AtMost e.collapse e := by
  obtain h | ⟨v, h, -⟩ := collapse_eq Bindings.none e
  · rw [h]
    exact .refl e
  · rw [h]
    exact atMost_num v e

/-- **Folding enlarges no tree.** -/
theorem atMost_fold (e : Expr) : AtMost e.fold e := by
  induction e with
  | num v => exact .refl _
  | var n => exact .refl _
  | signed s x ih => exact (atMost_collapse _).trans (ih.signed s)
  | arith op l r ihl ihr => exact (atMost_collapse _).trans (ihl.arith op ihr)
  | compare op l r ihl ihr => exact (atMost_collapse _).trans (ihl.compare op ihr)
  | choice c t e ihc iht ihe =>
    obtain ⟨ht, he⟩ := atMost_choice c t e
    obtain ⟨v, -, hfold⟩ | hfold := fold_choice c t e
    · rw [hfold]
      split
      · exact iht.trans ht
      · exact ihe.trans he
    · rw [hfold]
      exact ihc.choice iht ihe
  | call name args ih =>
    rw [fold, foldAll_eq_map]
    exact (atMost_collapse _).trans (.call name ih)

/-! ### Folding keeps the shape -/

/-- No condition on the leaves. -/
def Leaves.any : Leaves := ⟨fun _ => True, fun _ => True, fun _ => True⟩

theorem Plain.any (h : Plain L e) : Plain .any e := by
  induction h with
  | num _ => exact .num trivial
  | var _ => exact .var trivial
  | signed _ ih => exact .signed ih
  | arith _ _ ihl ihr => exact .arith ihl ihr
  | compare _ _ ihl ihr => exact .compare ihl ihr
  | call _ _ ih => exact .call trivial ih

theorem Shaped.any (h : Shaped L e) : Shaped .any e := by
  cases h with
  | plain h => exact .plain h.any
  | choice hc ht he => exact .choice hc.any ht.any he.any

theorem Plain.collapse (h : Plain .any e) : Plain .any e.collapse := by
  obtain he | ⟨v, he, -⟩ := collapse_eq Bindings.none e
  · rwa [he]
  · rw [he]
    exact .num trivial

/-- A plain tree stays plain. -/
theorem Plain.fold (h : Plain L e) : Plain .any e.fold := by
  induction h with
  | num _ => exact .num trivial
  | var _ => exact .var trivial
  | signed _ ih => exact (Plain.signed ih).collapse
  | arith _ _ ihl ihr => exact (Plain.arith ihl ihr).collapse
  | compare _ _ ihl ihr => exact (Plain.compare ihl ihr).collapse
  | call _ _ ih => exact (Plain.call trivial ih).collapse

/-- **Folding keeps the shape of a tree that is read.** -/
theorem Shaped.fold (h : Shaped L e) : Shaped .any e.fold := by
  cases h with
  | plain h => exact .plain h.fold
  | @choice c t e hc ht he =>
    obtain ⟨v, -, hfold⟩ | hfold := fold_choice c t e
    · rw [hfold]
      split
      · exact .plain ht.fold
      · exact .plain he.fold
    · rw [hfold]
      exact .choice hc.fold ht.fold he.fold

/-! ### Numbers and variables -/

variable {source : String}

/-- What the text of a number starts with is no sign, and not the letter of the word `nan`. -/
theorem ne_of_head {c : Char}
    (h : Token.isNumberChar c = true ∨ c = 'π' ∨ c = 'ℯ' ∨ c = 'e' ∨ c = 'p') :
    c ≠ '-' ∧ c ≠ '+' ∧ c.toLower ≠ 'n' := by
  rcases h with h | rfl | rfl | rfl | rfl
  · simp only [Token.isNumberChar, Bool.or_eq_true, beq_iff_eq] at h
    rcases h with h | rfl
    · rw [Number.toLower_of_isDigit h]
      refine ⟨?_, ?_, ?_⟩ <;>
      · rintro rfl
        cases h
    · decide
  all_goals decide

/-- The numbers of a text have no sign, and none is NaN. -/
theorem ordinary_of_parse (h : parse source = .ok e) : ∀ v ∈ e.nums, Number.Ordinary v := by
  have hshape : e.Shaped ⟨Number.Ordinary, fun _ => True, fun _ => True⟩ := by
    refine shaped_of_parse h fun ts hread t ht => ⟨?_, fun _ => trivial, fun _ => trivial⟩
    intro hk v hv
    have hlex := (Token.reads_of_readFrom hread).isLexeme t ht
    refine ⟨Number.isNaN_of_literal? hv ?_,
      Number.isNegative_of_literal? hv (hlex.head?_ne_minus hk)⟩
    obtain ⟨c, hhead, hc⟩ := hlex.exists_head hk
    rw [hhead]
    rintro _ ⟨⟩
    exact ne_of_head hc
  exact fun v hv => hshape.of_mem_nums hv

/-- Trees whose variables have one name have one variable at most. -/
theorem length_vars_le_one {name : String} (h : ∀ n ∈ e.vars, n = name) : e.vars.length ≤ 1 := by
  have hnodup := e.nodup_vars
  rwa [List.eq_replicate_of_mem h, List.nodup_replicate] at hnodup

end Expr

namespace Curve

variable {folding : Bool} {source : String} {c : Curve}

/-- **The tree of a curve has a simple shape.**  It is not too high, it has no conditional but at
its root, its functions have one argument, and it has one variable at most; folding or not, it is
neither larger nor higher than the tree of the text.  Without folding its numbers are neither NaN
nor negative. -/
theorem compile_shape (h : compile folding source = .ok c) :
    c.tree.height ≤ Expr.maxHeight ∧ c.tree.Shaped .any ∧ c.tree.vars.length ≤ 1 ∧
      (∃ t, Expr.parse source = .ok t ∧ c.tree.size ≤ t.size ∧ c.tree.height ≤ t.height) ∧
      (folding = false → ∀ v ∈ c.tree.nums, Number.Ordinary v) := by
  cases hparse : Expr.parse source with
  | error err =>
    rw [compile_of_error hparse] at h
    cases h
  | ok t =>
    rw [compile_of_ok hparse] at h
    cases h
    obtain ⟨-, -, -, -, -, hheight⟩ := Expr.parse_eq_ok_iff.1 hparse
    obtain ⟨name, hshape⟩ := Expr.exists_shaped_of_parse hparse
    have hvars : ∀ n ∈ t.vars, n = name := fun n hn => (hshape.of_mem_vars hn).1
    cases folding with
    | false =>
      exact ⟨hheight, hshape.any, Expr.length_vars_le_one hvars,
        ⟨t, rfl, Nat.le_refl _, Nat.le_refl _⟩, fun _ => Expr.ordinary_of_parse hparse⟩
    | true =>
      have hle := Expr.atMost_fold t
      have hfold : ∀ n ∈ t.fold.vars, n = name := fun n hn => hvars n (Expr.mem_vars_of_fold hn)
      exact ⟨Nat.le_trans hle.height hheight, hshape.fold, Expr.length_vars_le_one hfold,
        ⟨t, rfl, hle.size, hle.height⟩, fun hfalse => absurd hfalse (by decide)⟩

/-- In `1 < 2 ? -x : sin(x)` folding leaves one branch. -/
theorem compile_shape_branch :
    ∃ c, compile true "1 < 2 ? -x : sin(x)" = .ok c ∧ c.tree = .signed .minus (.var "x") ∧
      c.tree.height ≤ Expr.maxHeight ∧ c.tree.Shaped .any ∧ c.tree.vars.length ≤ 1 ∧
      ∃ t, Expr.parse "1 < 2 ? -x : sin(x)" = .ok t ∧ c.tree.size ≤ t.size ∧
        c.tree.height ≤ t.height := by
  have hparse : Expr.parse "1 < 2 ? -x : sin(x)" = .ok (.choice (.compare .lt (.num 1) (.num 2))
      (.signed .minus (.var "x")) (.call "sin" [.var "x"])) :=
    Expr.parse_eq_ok_iff.2 ⟨_, _, by cbv, rfl, Expr.ofPostfix_eq_ok_iff.1 rfl⟩
  have hcompile := compile_of_ok hparse true
  obtain ⟨hheight, hshape, hvars, hsize, -⟩ := compile_shape hcompile
  exact ⟨_, hcompile, by rfl, hheight, hshape, hvars, hsize⟩

end Curve

end Formula
