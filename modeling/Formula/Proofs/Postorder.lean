import Formula.Expr.OfPostfix
import Formula.Postfix

/-!
# Post-order

The nodes of a tree in post-order, operands from left to right and then their operator, are the
tokens from which `Expr.ofPostfix` builds the tree.

* `Postorder` relates the tokens in postfix order to the tree that they list.  The text of a number
  token has the value of the number, and the texts of variables and functions are their names; all
  other texts, and all positions, are free.
* `Expr.formed` runs the stack of trees without a bound on their height.
* `Expr.step_ofTrees` and `Expr.exists_trees_of_run`: the heights beside the trees are those of the
  trees, so that it is the height of a tree that is bounded.
* `Expr.run_of_formed`: the bounded run agrees with it if no tree that is left is too high, since
  every tree that is formed on the way is part of one that is left.
* `Postorder.formed`: the tokens of a tree put the tree on the stack, whatever lies below.
* `Postorder.ofPostfix` and `Postorder.unique`: so the tree is built if it is not too high, and no
  tokens list two trees.
* `Listed.run`: the other way round, the trees on the stack are listed by the tokens that were read.
* **`Expr.ofPostfix_eq_ok_iff`**: tokens build a tree just if they list it and it is not too high.
* `valueCount_of_formed` and `exists_formed_of_valueCount`: the count of values that a part of a
  conditional leaves follows the stack of trees, and tokens whose values can be counted form as many
  trees.
-/

namespace Formula

/-- The tokens list the nodes of the tree in post-order. -/
inductive Postorder : List Token → Expr → Prop
  | number {t : Token} {v : Float} : t.kind = .number → Number.literal? t.text = some v →
      Postorder [t] (.num v)
  | var {t : Token} : t.kind = .var → Postorder [t] (.var t.text)
  | signed {t : Token} {s : Sign} {ts : List Token} {x : Expr} : t.kind = .sign s →
      Postorder ts x → Postorder (ts ++ [t]) (.signed s x)
  | arith {t : Token} {op : Arith} {ls rs : List Token} {l r : Expr} : t.kind = .arith op →
      Postorder ls l → Postorder rs r → Postorder (ls ++ rs ++ [t]) (.arith op l r)
  | compare {t : Token} {op : Comparison} {ls rs : List Token} {l r : Expr} :
      t.kind = .compare op → Postorder ls l → Postorder rs r →
      Postorder (ls ++ rs ++ [t]) (.compare op l r)
  | choice {t : Token} {cs ys ns : List Token} {c y n : Expr} : t.kind = .choice →
      Postorder cs c → Postorder ys y → Postorder ns n →
      Postorder (cs ++ ys ++ ns ++ [t]) (.choice c y n)
  | call {t : Token} {ts : List Token} {x : Expr} : t.kind = .func → Postorder ts x →
      Postorder (ts ++ [t]) (.call t.text [x])

namespace Expr

/-- The stack after the tokens, the first of which has the number `index`, if no tree is too
high. -/
def formed (index : Nat) (stack : List Expr) : List Token → Except BuildError (List Expr)
  | [] => .ok stack
  | t :: ts =>
    match reduce index t stack with
    | .error e => .error e
    | .ok (e, rest) => formed (index + 1) (e :: rest) ts

variable {index : Nat} {t : Token} {f f' : Forest} {stack stack' rest : List Expr}
  {ts us : List Token} {e : Expr}

theorem formed_cons (h : reduce index t stack = .ok (e, rest)) :
    formed index stack (t :: ts) = formed (index + 1) (e :: rest) ts := by
  simp only [formed, h]

theorem formed_append (h : formed index stack ts = .ok stack') :
    formed index stack (ts ++ us) = formed (index + ts.length) stack' us := by
  induction ts generalizing index stack with
  | nil => cases h; rfl
  | cons t ts ih =>
    simp only [formed] at h
    split at h
    · cases h
    · rename_i e rest hr
      rw [List.cons_append, formed_cons hr, ih h, List.length_cons, Nat.add_right_comm,
        Nat.add_assoc]

/-- The operands of a token are lower than the tree that it forms, and the rest of the stack stays
as it is. -/
theorem height_lt_of_reduce (h : reduce index t stack = .ok (e, rest)) {x : Expr}
    (hx : x ∈ stack) : x ∈ rest ∨ x.height < e.height := by
  unfold reduce at h
  split at h <;> try cases h
  · split at h <;> cases h
    exact .inl hx
  · exact .inl hx
  all_goals
    simp only [List.mem_cons] at hx
    simp only [height, heightAll]
    grind

/-- No tree of the stack is higher than all the trees that are left. -/
theorem exists_height_le_of_formed (h : formed index stack ts = .ok stack') {x : Expr}
    (hx : x ∈ stack) : ∃ y ∈ stack', x.height ≤ y.height := by
  induction ts generalizing index stack x with
  | nil => cases h; exact ⟨x, hx, Nat.le_refl _⟩
  | cons t ts ih =>
    simp only [formed] at h
    split at h
    · cases h
    · rename_i e rest hr
      -- a tree of the stack stays there, or becomes part of the higher tree on top
      rcases height_lt_of_reduce hr hx with hx | hlt
      · exact ih h (List.mem_cons_of_mem _ hx)
      · obtain ⟨y, hy, hle⟩ := ih h List.mem_cons_self
        exact ⟨y, hy, by omega⟩

/-- **What a token does to the stacks.**  If it is applied, the tree that it forms takes the place
of its operands, unless it is taken to be too high. -/
theorem step_cases (index : Nat) (t : Token) (f : Forest) :
    (∃ err, reduce index t f.trees = .error err ∧ step index t f = .error err) ∨
      ∃ e rest, reduce index t f.trees = .ok (e, rest) ∧
        ((∃ hs, step index t f = .ok ⟨e :: rest, hs⟩) ∨
          step index t f = .error (.tooHigh index)) := by
  simp only [step, bind, Except.bind]
  cases hr : reduce index t f.trees with
  | error err => exact .inl ⟨err, rfl, rfl⟩
  | ok r =>
    refine .inr ⟨r.1, r.2, rfl, ?_⟩
    dsimp only
    split
    · exact .inl ⟨_, rfl⟩
    · exact .inr rfl

theorem exists_reduce_of_step (h : step index t f = .ok f') :
    ∃ e rest, reduce index t f.trees = .ok (e, rest) ∧ f'.trees = e :: rest := by
  obtain ⟨err, -, herr⟩ | ⟨e, rest, hr, ⟨hs, hok⟩ | hhigh⟩ := step_cases index t f
  · rw [herr] at h
    cases h
  · rw [hok] at h
    cases h
    exact ⟨e, rest, hr, rfl⟩
  · rw [hhigh] at h
    cases h

/-! ### The two stacks keep in step -/

/-- The stacks that hold the trees and the heights of these trees. -/
def Forest.ofTrees (trees : List Expr) : Forest := ⟨trees, trees.map height⟩

/-- A token takes its operands from the top of the stack, where there are enough of them, and the
highest one settles the height of the tree that it forms. -/
theorem reduce_eq_drop (h : reduce index t stack = .ok (e, rest)) :
    t.arity ≤ stack.length ∧ rest = stack.drop t.arity ∧
      e.height = 1 + ((stack.map height).take t.arity).max?.getD 0 := by
  unfold reduce at h
  -- one case for each kind of token
  split at h <;> try cases h
  case h_1 hk => split at h <;> cases h; simp [Token.arity, height, hk]
  all_goals simp [Token.arity, height, heightAll, *]
  all_goals omega

/-- **The heights are those of the trees, token by token.**  So a token is refused just if the tree
that it forms is too high. -/
theorem step_ofTrees (index : Nat) (t : Token) (stack : List Expr) :
    step index t (.ofTrees stack) =
      match reduce index t stack with
      | .error err => .error err
      | .ok (e, rest) =>
        if e.height ≤ maxHeight then .ok (.ofTrees (e :: rest)) else .error (.tooHigh index) := by
  simp only [step, Forest.ofTrees, bind, Except.bind]
  cases hr : reduce index t stack with
  | error err => rfl
  | ok r =>
    obtain ⟨e, rest⟩ := r
    obtain ⟨-, rfl, hheight⟩ := reduce_eq_drop hr
    simp only [← hheight, List.map_cons, List.map_drop]
    rfl

theorem step_of_reduce (h : reduce index t stack = .ok (e, rest)) (hle : e.height ≤ maxHeight) :
    step index t (.ofTrees stack) = .ok (.ofTrees (e :: rest)) := by
  simp only [step_ofTrees, h, if_pos hle]

/-- A run that succeeds has applied its first token to a tree that is not too high. -/
theorem exists_reduce_of_run_cons (h : run index (.ofTrees stack) (t :: ts) = .ok f) :
    ∃ e rest, reduce index t stack = .ok (e, rest) ∧ e.height ≤ maxHeight ∧
      run (index + 1) (.ofTrees (e :: rest)) ts = .ok f := by
  simp only [run, step_ofTrees, bind, Except.bind] at h
  cases hr : reduce index t stack with
  | error err =>
    rw [hr] at h
    cases h
  | ok r =>
    rw [hr] at h
    by_cases hle : r.1.height ≤ maxHeight
    · simp only [if_pos hle] at h
      exact ⟨r.1, r.2, rfl, hle, h⟩
    · simp only [if_neg hle] at h
      cases h

/-- **The heights are those of the trees** after all tokens. -/
theorem exists_trees_of_run (h : run index (.ofTrees stack) ts = .ok f) :
    ∃ stack', f = .ofTrees stack' := by
  induction ts generalizing index stack with
  | nil =>
    cases h
    exact ⟨stack, rfl⟩
  | cons t ts ih =>
    obtain ⟨e, rest, -, -, h⟩ := exists_reduce_of_run_cons h
    exact ih h

/-! ### The bounded run -/

/-- The latest tree is not too high, unless it lay on the stack before. -/
theorem height_le_of_run (h : run index (.ofTrees stack) ts = .ok (.ofTrees (e :: rest)))
    (hts : ts ≠ []) : e.height ≤ maxHeight := by
  induction ts generalizing index stack with
  | nil => exact absurd rfl hts
  | cons t ts ih =>
    obtain ⟨e', rest', -, hle, h⟩ := exists_reduce_of_run_cons h
    by_cases hts : ts = []
    · subst hts
      cases h
      exact hle
    · exact ih h hts

/-- The bound on the height does not show if no tree that is left is too high. -/
theorem run_of_formed (h : formed index stack ts = .ok stack')
    (hle : ∀ x ∈ stack', x.height ≤ maxHeight) :
    run index (.ofTrees stack) ts = .ok (.ofTrees stack') := by
  induction ts generalizing index stack with
  | nil =>
    cases h
    rfl
  | cons t ts ih =>
    simp only [formed] at h
    split at h
    · cases h
    · rename_i e rest hr
      -- the tree that is formed here is not higher than one that is left at the end
      obtain ⟨y, hy, hey⟩ := exists_height_le_of_formed h List.mem_cons_self
      simp only [run, step_of_reduce hr (Nat.le_trans hey (hle y hy))]
      exact ih h

/-- The bounded run is a run. -/
theorem formed_of_run (h : run index (.ofTrees stack) ts = .ok (.ofTrees stack')) :
    formed index stack ts = .ok stack' := by
  induction ts generalizing index stack with
  | nil =>
    cases h
    rfl
  | cons t ts ih =>
    obtain ⟨e, rest, hr, -, h⟩ := exists_reduce_of_run_cons h
    rw [formed_cons hr]
    exact ih h

end Expr

namespace Postorder

open Formula.Expr

variable {ts ts' : List Token} {e e' : Expr}

theorem ne_nil (h : Postorder ts e) : ts ≠ [] := by
  cases h <;> simp

/-- The tokens of a tree put the tree on the stack. -/
theorem formed (h : Postorder ts e) (index : Nat) (stack : List Expr) :
    formed index stack ts = .ok (e :: stack) := by
  induction h generalizing index stack with
  | number hk hv => simp only [Expr.formed, reduce, hk, hv]
  | var hk => simp only [Expr.formed, reduce, hk]
  | signed hk _ ih =>
    rw [formed_append (ih ..)]
    simp only [Expr.formed, reduce, hk]
  | arith hk _ _ ihl ihr =>
    rw [List.append_assoc, formed_append (ihl ..), formed_append (ihr ..)]
    simp only [Expr.formed, reduce, hk]
  | compare hk _ _ ihl ihr =>
    rw [List.append_assoc, formed_append (ihl ..), formed_append (ihr ..)]
    simp only [Expr.formed, reduce, hk]
  | choice hk _ _ _ ihc ihy ihn =>
    rw [List.append_assoc, List.append_assoc, formed_append (ihc ..), formed_append (ihy ..),
      formed_append (ihn ..)]
    simp only [Expr.formed, reduce, hk]
  | call hk _ ih =>
    rw [formed_append (ih ..)]
    simp only [Expr.formed, reduce, hk]

/-- No tokens list two trees. -/
theorem unique (h : Postorder ts e) (h' : Postorder ts e') : e = e' := by
  have hstack : Except.ok (ε := BuildError) [e] = .ok [e'] :=
    (h.formed 0 []).symm.trans (h'.formed 0 [])
  simpa using hstack

/-- The tree is built from its tokens if it is not too high. -/
theorem ofPostfix (h : Postorder ts e) (hle : e.height ≤ maxHeight) :
    ofPostfix ts = .ok e := by
  have hrun : run 0 ⟨[], []⟩ ts = .ok (.ofTrees [e]) :=
    run_of_formed (h.formed 0 []) (by simpa using hle)
  simp only [Expr.ofPostfix, h.ne_nil, hrun, ↓reduceIte]
  rfl

end Postorder

/-- The tokens list the trees of the stack, the latest tree last. -/
inductive Listed : List Token → List Expr → Prop
  | nil : Listed [] []
  | cons {ts us : List Token} {stack : List Expr} {e : Expr} : Listed ts stack → Postorder us e →
      Listed (ts ++ us) (e :: stack)

namespace Listed

open Formula.Expr

variable {index : Nat} {t : Token} {stack stack' rest : List Expr} {ts us : List Token} {e : Expr}

/-- A token lists the tree that it forms after the tokens of its operands. -/
theorem reduce (h : Listed ts stack) (hr : reduce index t stack = .ok (e, rest)) :
    Listed (ts ++ [t]) (e :: rest) := by
  unfold Expr.reduce at hr
  -- one case for each kind of token, whose operands are the trees that were listed last
  split at hr <;> try cases hr
  · split at hr <;> cases hr
    exact h.cons (.number ‹_› ‹_›)
  · exact h.cons (.var ‹_›)
  · obtain _ | ⟨h, hx⟩ := h
    have hlist := h.cons (.signed (t := t) ‹_› hx)
    simpa only [List.append_assoc] using hlist
  · obtain _ | ⟨h, hx⟩ := h
    have hlist := h.cons (.call (t := t) ‹_› hx)
    simpa only [List.append_assoc] using hlist
  · obtain _ | ⟨_ | ⟨h, hl⟩, hr⟩ := h
    have hlist := h.cons (.arith (t := t) ‹_› hl hr)
    simpa only [List.append_assoc] using hlist
  · obtain _ | ⟨_ | ⟨h, hl⟩, hr⟩ := h
    have hlist := h.cons (.compare (t := t) ‹_› hl hr)
    simpa only [List.append_assoc] using hlist
  · obtain _ | ⟨_ | ⟨_ | ⟨h, hc⟩, hy⟩, hn⟩ := h
    have hlist := h.cons (.choice (t := t) ‹_› hc hy hn)
    simpa only [List.append_assoc] using hlist

theorem formed (h : Listed us stack) (hf : formed index stack ts = .ok stack') :
    Listed (us ++ ts) stack' := by
  induction ts generalizing index stack us with
  | nil =>
    cases hf
    rwa [List.append_nil]
  | cons t ts ih =>
    simp only [Expr.formed] at hf
    split at hf
    · cases hf
    · have hlist := ih (h.reduce ‹Expr.reduce _ _ _ = _›) hf
      rwa [List.append_assoc, List.singleton_append] at hlist

theorem run (h : Listed us stack) (hr : run index (.ofTrees stack) ts = .ok (.ofTrees stack')) :
    Listed (us ++ ts) stack' :=
  h.formed (formed_of_run hr)

end Listed

namespace Expr

variable {index : Nat} {f f' : Forest} {ts : List Token} {e : Expr} {err : BuildError}

/-- A tree is left after a token. -/
theorem ne_nil_of_run (h : run index f ts = .ok f') (hne : f.trees ≠ [] ∨ ts ≠ []) :
    f'.trees ≠ [] := by
  induction ts generalizing index f with
  | nil =>
    cases h
    simpa using hne
  | cons t ts ih =>
    simp only [run, bind, Except.bind] at h
    split at h
    · cases h
    · obtain ⟨e, rest, -, htrees⟩ := exists_reduce_of_step ‹step index t f = _›
      exact ih h (.inl (by simp [htrees]))

theorem ofPostfix_of_run_eq_error (h : run 0 ⟨[], []⟩ ts = .error err) :
    ofPostfix ts = .error err := by
  have hne : ts ≠ [] := by
    rintro rfl
    cases h
  simp only [ofPostfix, hne, h, ↓reduceIte]
  rfl

/-- What is built of tokens that all can be applied: one tree, or several. -/
theorem ofPostfix_of_run (hne : ts ≠ []) (h : run 0 ⟨[], []⟩ ts = .ok f) :
    (∃ e, f.trees = [e] ∧ ofPostfix ts = .ok e) ∨
      2 ≤ f.trees.length ∧ ofPostfix ts = .error (.leftover f.trees.length) := by
  have hstack := ne_nil_of_run h (.inr hne)
  obtain ⟨trees, heights⟩ := f
  simp only [ofPostfix, hne, h, ↓reduceIte]
  match trees with
  | [] => exact absurd rfl hstack
  | [e] => exact .inl ⟨e, rfl, rfl⟩
  | _ :: _ :: rest => exact .inr ⟨Nat.le_add_left 2 rest.length, rfl⟩

/-- **Tokens build a tree just if they list it and it is not too high.** -/
theorem ofPostfix_eq_ok_iff : ofPostfix ts = .ok e ↔ Postorder ts e ∧ e.height ≤ maxHeight := by
  refine ⟨?_, fun h => h.1.ofPostfix h.2⟩
  intro h
  have hne : ts ≠ [] := by
    rintro rfl
    cases h
  cases hrun : run 0 (.ofTrees []) ts with
  | error err =>
    rw [ofPostfix_of_run_eq_error hrun] at h
    cases h
  | ok f =>
    obtain ⟨stack, rfl⟩ := exists_trees_of_run hrun
    obtain ⟨e', rfl, he⟩ | ⟨-, hleft⟩ : (∃ e', stack = [e'] ∧ ofPostfix ts = .ok e') ∨ _ :=
      ofPostfix_of_run hne hrun
    · obtain rfl : e' = e := Except.ok.inj (he.symm.trans h)
      refine ⟨?_, height_le_of_run hrun hne⟩
      -- one tree is left, so that nothing is listed below it
      obtain _ | ⟨_ | _, hpost⟩ := Listed.nil.run hrun
      exact hpost
    · rw [hleft] at h
      cases h

end Expr

namespace Postfix

open Formula.Expr

variable {index : Nat} {t : Token} {stack stack' rest : List Expr} {ts : List Token} {e : Expr}

theorem countValue_of_reduce (h : reduce index t stack = .ok (e, rest)) (hk : t.kind ≠ .choice) :
    countValue stack.length t = some (rest.length + 1) := by
  unfold reduce at h
  split at h <;> try cases h
  case h_1 hkind => split at h <;> cases h; simp [countValue, operandCount?, hkind]
  case h_7 hkind => exact absurd hkind hk
  all_goals simp [countValue, operandCount?, *]

/-- The count of values follows the stack of trees, for the tokens of a plain formula. -/
theorem valueCount_of_formed (h : formed index stack ts = .ok stack')
    (hk : ∀ t ∈ ts, t.kind ≠ .choice) :
    ts.foldlM countValue stack.length = some stack'.length := by
  induction ts generalizing index stack with
  | nil => cases h; rfl
  | cons t ts ih =>
    obtain ⟨ht, hts⟩ := List.forall_mem_cons.1 hk
    simp only [formed] at h
    split at h
    · cases h
    · rename_i e rest hr
      rw [List.foldlM_cons, countValue_of_reduce hr ht]
      exact ih h hts

/-- A token whose operands are counted finds them on the stack, and forms a tree unless it is a
number without a value. -/
theorem exists_reduce_of_countValue {n : Nat} (h : countValue stack.length t = some n)
    (hnum : t.kind = .number → ∃ v, Number.literal? t.text = some v) :
    ∃ e rest, reduce index t stack = .ok (e, rest) ∧ rest.length + 1 = n := by
  obtain ⟨kind, text, pos⟩ := t
  cases kind with
  | number =>
    obtain ⟨v, hv⟩ := hnum rfl
    cases h
    exact ⟨.num v, stack, by simp only [reduce, hv], rfl⟩
  | var =>
    cases h
    exact ⟨_, _, rfl, rfl⟩
  | sign _ | func =>
    cases stack with
    | nil => cases h
    | cons x stack =>
      cases h
      exact ⟨_, _, rfl, rfl⟩
  | arith _ | compare _ =>
    match stack, h with
    | [], h | [_], h => cases h
    | r :: l :: stack, h =>
      cases h
      exact ⟨_, _, rfl, rfl⟩
  | _ => cases h

/-- Tokens whose values are counted form as many trees, if all numbers have values. -/
theorem exists_formed_of_valueCount {n : Nat} (h : ts.foldlM countValue stack.length = some n)
    (hnum : ∀ t ∈ ts, t.kind = .number → ∃ v, Number.literal? t.text = some v) :
    ∃ stack', formed index stack ts = .ok stack' ∧ stack'.length = n := by
  induction ts generalizing index stack with
  | nil =>
    cases h
    exact ⟨stack, rfl, rfl⟩
  | cons t ts ih =>
    obtain ⟨ht, hts⟩ := List.forall_mem_cons.1 hnum
    rw [List.foldlM_cons] at h
    obtain ⟨m, hm, h⟩ := Option.bind_eq_some_iff.1 h
    obtain ⟨e, rest, hr, hlength⟩ := exists_reduce_of_countValue hm ht
    rw [formed_cons hr]
    exact ih (by rwa [List.length_cons, hlength]) hts

/-- The tokens of a tree leave one value. -/
theorem valueCount_of_postorder (h : Postorder ts e) (hk : ∀ t ∈ ts, t.kind ≠ .choice) :
    valueCount ts = some 1 :=
  valueCount_of_formed (h.formed 0 []) hk

/-- Tokens that leave one value list a tree, if all numbers have values. -/
theorem exists_postorder_of_valueCount (h : valueCount ts = some 1)
    (hnum : ∀ t ∈ ts, t.kind = .number → ∃ v, Number.literal? t.text = some v) :
    ∃ e, Postorder ts e := by
  have hstack : ∃ stack, formed 0 [] ts = .ok stack ∧ stack.length = 1 :=
    exists_formed_of_valueCount h hnum
  obtain ⟨stack, hformed, hlength⟩ := hstack
  obtain ⟨e, rfl⟩ := List.length_eq_one_iff.1 hlength
  obtain _ | ⟨_ | _, hpost⟩ := Listed.nil.formed hformed
  exact ⟨e, hpost⟩

end Postfix

end Formula
