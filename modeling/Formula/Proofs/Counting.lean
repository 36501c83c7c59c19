import Formula.Proofs.Inventory

/-!
# Counting values and building trees

The values that tokens in postfix order leave are counted before there are trees, with a table of
operands of its own, and the trees are built later.  The two keep in step, token by token: there are
as many values as trees on the stack, and a token that cannot be counted cannot be applied.  What
counting does not see is whether a number has a value and whether a tree is too high.

* `BuildError.isMiscount` and `BuildError.isUncounted` sort the failures by whether counting sees
  them.
* `Postfix.Foretells` says that a count agrees with what building comes to.
* `Postfix.foretells_step` (one token) and `Postfix.foretells_run` (a run): counting foretells
  building.
* `Postfix.exists_parts_of_question`: a conditional in postfix order is three parts, each of which
  leaves one value, and a mark.
* **`Postfix.ofPostfix_valueCount`**: what a count says of the tree, for a plain formula and for a
  conditional.
-/

namespace Formula

/-- The failure shows in the count of values: a token lacks operands, or has no place in postfix
order. -/
def BuildError.isMiscount : BuildError → Bool
  | .missingOperand _ _ | .misplaced _ _ => true
  | _ => false

/-- The failure is about one tree and does not show in the count of values: a number has no value,
or a tree is too high. -/
def BuildError.isUncounted : BuildError → Bool
  | .badNumber _ _ | .tooHigh _ => true
  | _ => false

namespace Postfix

open Formula.Expr (Forest reduce step run ofPostfix)

variable {index m n : Nat} {count : Option Nat} {t : Token} {f : Forest} {stack rest : List Expr}
  {ts ps : List Token} {e : Expr} {err : BuildError}

/-- The count of values agrees with the trees that building leaves, or with the failure. -/
def Foretells (count : Option Nat) : Except BuildError Forest → Prop
  | .ok f => count = some f.trees.length
  | .error err => err.isUncounted = true ∨ err.isMiscount = true ∧ count = none

/-- What counts on from a stack foretells what is built on it. -/
theorem Foretells.bind {r : Except BuildError Forest} {f : Nat → Option Nat}
    {g : Forest → Except BuildError Forest} (h : Foretells count r)
    (hg : ∀ x, count = some x.trees.length → Foretells (f x.trees.length) (g x)) :
    Foretells (count.bind f) (r.bind g) := by
  cases r with
  | ok x =>
    rw [show count = some x.trees.length from h]
    exact hg x h
  | error err =>
    -- building fails here, and the count is lost if the failure shows in it
    rcases h with hun | ⟨hmis, hnone⟩
    · exact .inl hun
    · exact .inr ⟨hmis, by rw [hnone, Option.bind_none]⟩

/-! ### One token -/

/-- A token that is not applied has no value, or cannot be counted. -/
theorem foretells_of_reduce_error (h : reduce index t stack = .error err)
    (hk : t.kind ≠ .choice) :
    err.isUncounted = true ∨ err.isMiscount = true ∧ countValue stack.length t = none := by
  obtain ⟨kind, text, pos⟩ := t
  cases kind with
  | number =>
    simp only [reduce] at h
    split at h <;> cases h
    exact .inl rfl
  | var => cases h
  | sign _ | func =>
    cases stack with
    | nil =>
      cases h
      exact .inr ⟨rfl, rfl⟩
    | cons x stack => cases h
  | arith _ | compare _ =>
    obtain _ | ⟨x, _ | ⟨y, stack⟩⟩ := stack
    · cases h
      exact .inr ⟨rfl, rfl⟩
    · cases h
      exact .inr ⟨rfl, rfl⟩
    · cases h
  | choice => exact absurd rfl hk
  | _ =>
    cases h
    exact .inr ⟨rfl, rfl⟩

/-- A token that is applied forms one tree in place of its operands, if it is not too high. -/
theorem foretells_step_of_reduce (h : reduce index t f.trees = .ok (e, rest)) :
    Foretells (some (rest.length + 1)) (step index t f) := by
  obtain ⟨err, hr, -⟩ | ⟨e', rest', hr, hstep⟩ := Expr.step_cases index t f <;> rw [h] at hr
  · cases hr
  · cases hr
    rcases hstep with ⟨hs, hok⟩ | hhigh
    · rw [hok]
      rfl
    · rw [hhigh]
      exact .inl rfl

/-- **Counting foretells what a token does.** -/
theorem foretells_step (hk : t.kind ≠ .choice) :
    Foretells (countValue f.trees.length t) (step index t f) := by
  obtain ⟨err, hr, herr⟩ | ⟨e, rest, hr, -⟩ := Expr.step_cases index t f
  · rw [herr]
    exact foretells_of_reduce_error hr hk
  · rw [countValue_of_reduce hr hk]
    exact foretells_step_of_reduce hr

/-! ### A run -/

/-- **Counting foretells what a run does.** -/
theorem foretells_run (hk : ∀ t ∈ ts, t.kind ≠ .choice) :
    Foretells (ts.foldlM countValue f.trees.length) (run index f ts) := by
  induction ts generalizing index f with
  | nil => rfl
  | cons t ts ih =>
    obtain ⟨ht, hts⟩ := List.forall_mem_cons.1 hk
    rw [List.foldlM_cons]
    exact (foretells_step ht).bind fun _ _ => ih hts

theorem countValue_pos (h : countValue m t = some n) : 0 < n := by
  unfold countValue at h
  split at h
  · split at h <;> cases h
    omega
  · cases h

/-- Some value is left after a token. -/
theorem valueCount_ne_zero (hne : ts ≠ []) : valueCount ts ≠ some 0 := by
  intro hzero
  obtain rfl | ⟨us, t, rfl⟩ := ts.eq_nil_or_concat'
  · exact hne rfl
  · rw [valueCount, List.foldlM_append] at hzero
    obtain ⟨m, -, hlast⟩ := Option.bind_eq_some_iff.1 hzero
    rw [List.foldlM_cons] at hlast
    obtain ⟨n, hn, hzero⟩ := Option.bind_eq_some_iff.1 hlast
    cases hzero
    exact absurd (countValue_pos hn) (by omega)

/-- Values that lie below are left as they are. -/
theorem foldlM_countValue_add (h : ts.foldlM countValue m = some n) (k : Nat) :
    ts.foldlM countValue (k + m) = some (k + n) := by
  induction ts generalizing m with
  | nil =>
    cases h
    rfl
  | cons t ts ih =>
    rw [List.foldlM_cons] at h ⊢
    obtain ⟨m', hm, h⟩ := Option.bind_eq_some_iff.1 h
    have hm' : countValue (k + m) t = some (k + m') := by
      unfold countValue at hm ⊢
      split at hm
      · split at hm <;> cases hm
        rw [if_pos (by omega)]
        congr 1
        omega
      · cases hm
    rw [hm']
    exact ih h

/-! ### The tree -/

/-- What a run over all tokens comes to is what building comes to, where one tree is left. -/
theorem ofPostfix_of_foretells (hne : ps ≠ []) (h : Foretells count (run 0 ⟨[], []⟩ ps)) :
    (∃ e, ofPostfix ps = .ok e ∧ count = some 1) ∨
      (∃ n, ofPostfix ps = .error (.leftover n) ∧ count = some n ∧ n ≠ 1) ∨
      ∃ err, ofPostfix ps = .error err ∧
        (err.isUncounted = true ∨ err.isMiscount = true ∧ count = none) := by
  cases hrun : run 0 ⟨[], []⟩ ps with
  | error err =>
    rw [hrun] at h
    exact .inr (.inr ⟨err, Expr.ofPostfix_of_run_eq_error hrun, h⟩)
  | ok f =>
    rw [hrun] at h
    obtain ⟨e, htrees, he⟩ | ⟨hle, hleft⟩ := Expr.ofPostfix_of_run hne hrun
    · rw [show count = some f.trees.length from h, htrees]
      exact .inl ⟨e, he, rfl⟩
    · exact .inr (.inl ⟨f.trees.length, hleft, h, by omega⟩)

/-- Where one value is counted, one tree is built. -/
theorem exists_ofPostfix_of_foretells (hne : ps ≠ [])
    (h : Foretells (some 1) (run 0 ⟨[], []⟩ ps)) :
    (∃ e, ofPostfix ps = .ok e) ∨
      ∃ err, ofPostfix ps = .error err ∧ err.isUncounted = true := by
  obtain ⟨e, he, -⟩ | ⟨n, -, hn, hone⟩ | ⟨err, herr, hun | ⟨-, hnone⟩⟩ :=
    ofPostfix_of_foretells hne h
  · exact .inl ⟨e, he⟩
  · exact absurd (Option.some.inj hn).symm hone
  · exact .inr ⟨err, herr, hun⟩
  · cases hnone

/-! ### Conditionals -/

/-- A formula with a question mark is a conditional in postfix order: three parts, each of which
leaves one value, and a mark. -/
theorem exists_parts_of_question (h : ofTokens ts = .ok ps) (hq : ∃ t ∈ ts, t.kind = .question) :
    ∃ pc py pn pos, ps = pc ++ py ++ pn ++ [Token.choiceAt pos] ∧
      (∀ t ∈ pc ++ py ++ pn, t.kind ≠ .choice) ∧ valueCount pc = some 1 ∧
      valueCount py = some 1 ∧ valueCount pn = some 1 := by
  obtain h | ⟨cs, q, ys, k, ns, -, -, -, pc, py, pn, hc, hy, hn, rfl⟩ := ofTokens_cases h
  · -- a plain formula has no question mark
    have hzero := countP_isQuestion_of_reorder h
    rw [countP_isQuestion_markSigns, List.countP_eq_zero] at hzero
    obtain ⟨t, ht, hkind⟩ := hq
    exact absurd (by simpa [Token.isQuestion] using hkind) (hzero t ht)
  · obtain ⟨hc, hccount⟩ := part_eq_ok_iff.1 hc
    obtain ⟨hy, hycount⟩ := part_eq_ok_iff.1 hy
    obtain ⟨hn, hncount⟩ := part_eq_ok_iff.1 hn
    refine ⟨pc, py, pn, q.pos, rfl, ?_, hccount, hycount, hncount⟩
    simp only [List.forall_mem_append]
    exact ⟨⟨ne_choice_of_reorder hc, ne_choice_of_reorder hy⟩, ne_choice_of_reorder hn⟩

theorem run_singleton (index : Nat) (f : Forest) (t : Token) :
    run index f [t] = step index t f := by
  simp only [run]
  cases step index t f <;> rfl

/-- A mark after three trees forms one tree of them, if it is not too high. -/
theorem foretells_run_choice (hk : t.kind = .choice) (h : f.trees.length = 3) :
    Foretells (some 1) (run index f [t]) := by
  obtain ⟨trees, heights⟩ := f
  match trees, h with
  | [n, y, c], _ =>
    have hreduce : reduce index t [n, y, c] = .ok (.choice c y n, []) := by
      simp only [reduce, hk]
    rw [run_singleton]
    exact foretells_step_of_reduce (f := ⟨[n, y, c], heights⟩) hreduce

/-- A conditional leaves one tree, or fails for one of its trees. -/
theorem foretells_run_conditional (h : ofTokens ts = .ok ps)
    (hq : ∃ t ∈ ts, t.kind = .question) : Foretells (some 1) (run 0 ⟨[], []⟩ ps) := by
  obtain ⟨pc, py, pn, pos, rfl, hk, hc, hy, hn⟩ := exists_parts_of_question h hq
  have hthree : (pc ++ py ++ pn).foldlM countValue 0 = some 3 := by
    have hy := foldlM_countValue_add hy 1
    have hn := foldlM_countValue_add hn 2
    rw [List.foldlM_append, List.foldlM_append, show pc.foldlM countValue 0 = some 1 from hc]
    show (py.foldlM countValue 1).bind _ = _
    rw [hy]
    exact hn
  have hrun : Foretells ((pc ++ py ++ pn).foldlM countValue 0)
      (run 0 ⟨[], []⟩ (pc ++ py ++ pn)) := foretells_run hk
  rw [hthree] at hrun
  rw [Expr.run_append]
  refine hrun.bind (f := fun _ => some 1) ?_
  intro f hf
  exact foretells_run_choice rfl (Option.some.inj hf).symm

/-- **Counting values and building trees agree.**  Tokens without the mark of a conditional that
leave one value build a tree, those that leave several values leave as many trees, and those whose
values cannot be counted lack an operand or have a token out of place; unless a number has no value
or a tree is too high, which counting does not see.  Some value is always left.  So a conditional
that is put into postfix order builds a tree, unless a number has no value or a tree is too high. -/
theorem ofPostfix_valueCount :
    (∀ ps : List Token, ps ≠ [] → (∀ t ∈ ps, t.kind ≠ .choice) →
      (valueCount ps = some 1 → (∃ e, ofPostfix ps = .ok e) ∨
        ∃ err, ofPostfix ps = .error err ∧ err.isUncounted = true) ∧
      (∀ n, 2 ≤ n → valueCount ps = some n → ofPostfix ps = .error (.leftover n) ∨
        ∃ err, ofPostfix ps = .error err ∧ err.isUncounted = true) ∧
      (valueCount ps = none →
        ∃ err, ofPostfix ps = .error err ∧ (err.isMiscount = true ∨ err.isUncounted = true)) ∧
      valueCount ps ≠ some 0) ∧
    ∀ ts ps : List Token, (∃ t ∈ ts, t.kind = .question) → ofTokens ts = .ok ps →
      (∃ e, ofPostfix ps = .ok e) ∨
        ∃ err, ofPostfix ps = .error err ∧ err.isUncounted = true := by
  refine ⟨?_, ?_⟩
  · intro ps hne hk
    have hrun : Foretells (valueCount ps) (run 0 ⟨[], []⟩ ps) := foretells_run hk
    refine ⟨?_, ?_, ?_, valueCount_ne_zero hne⟩
    · intro hone
      rw [hone] at hrun
      exact exists_ofPostfix_of_foretells hne hrun
    · intro n hn hcount
      rw [hcount] at hrun
      obtain ⟨e, -, hone⟩ | ⟨m, hm, hcount, -⟩ | ⟨err, herr, hun | ⟨-, hnone⟩⟩ :=
        ofPostfix_of_foretells hne hrun
      · cases hone
        omega
      · cases hcount
        exact .inl hm
      · exact .inr ⟨err, herr, hun⟩
      · cases hnone
    · intro hcount
      rw [hcount] at hrun
      obtain ⟨e, -, hone⟩ | ⟨m, -, hm, -⟩ | ⟨err, herr, hun | ⟨hmis, -⟩⟩ :=
        ofPostfix_of_foretells hne hrun
      · cases hone
      · cases hm
      · exact ⟨err, herr, .inr hun⟩
      · exact ⟨err, herr, .inl hmis⟩
  · intro ts ps hq hps
    have hne : ps ≠ [] := by
      obtain ⟨pc, py, pn, pos, rfl, -⟩ := exists_parts_of_question hps hq
      simp
    exact exists_ofPostfix_of_foretells hne (foretells_run_conditional hps hq)

/-- Two values are counted in `1 2`, none in `2 *`, one in `-x`, and in `x ? 1 : sin(2)` one in each
part. -/
theorem ofPostfix_valueCount_conditional :
    (valueCount [⟨.number, "1", 0⟩, ⟨.number, "2", 2⟩] = some 2 ∧
      ofPostfix [⟨.number, "1", 0⟩, ⟨.number, "2", 2⟩] = .error (.leftover 2)) ∧
    (valueCount [⟨.number, "2", 0⟩, ⟨.arith .mul, "*", 2⟩] = none ∧
      ∃ err, ofPostfix [⟨.number, "2", 0⟩, ⟨.arith .mul, "*", 2⟩] = .error err ∧
        err.isMiscount = true ∧ err = .missingOperand "*" 1) ∧
    (valueCount [⟨.var, "x", 1⟩, ⟨.sign .minus, "u-", 0⟩] = some 1 ∧
      ∃ e, ofPostfix [⟨.var, "x", 1⟩, ⟨.sign .minus, "u-", 0⟩] = .ok e ∧
        e = .signed .minus (.var "x")) ∧
    ∃ ps e, ofTokens [⟨.var, "x", 0⟩, ⟨.question, "?", 2⟩, ⟨.number, "1", 4⟩, ⟨.colon, ":", 6⟩,
        ⟨.func, "sin", 8⟩, ⟨.lparen, "(", 11⟩, ⟨.number, "2", 12⟩, ⟨.rparen, ")", 13⟩] = .ok ps ∧
      ofPostfix ps = .ok e ∧ e = .choice (.var "x") (.num 1) (.call "sin" [.num 2]) := by
  have hps : ofTokens [⟨.var, "x", 0⟩, ⟨.question, "?", 2⟩, ⟨.number, "1", 4⟩, ⟨.colon, ":", 6⟩,
      ⟨.func, "sin", 8⟩, ⟨.lparen, "(", 11⟩, ⟨.number, "2", 12⟩, ⟨.rparen, ")", 13⟩] =
    .ok [⟨.var, "x", 0⟩, ⟨.number, "1", 4⟩, ⟨.number, "2", 12⟩, ⟨.func, "sin", 8⟩,
      Token.choiceAt 2] := rfl
  -- in each case the theorem leaves what counting sees, for no number here is without a value and
  -- no tree is too high
  refine ⟨⟨rfl, ?_⟩, ⟨rfl, ?_⟩, ⟨rfl, ?_⟩, ?_⟩
  · obtain hleft | ⟨err, herr, hun⟩ := (ofPostfix_valueCount.1
      [⟨.number, "1", 0⟩, ⟨.number, "2", 2⟩] (by decide) (by decide)).2.1 2 (by decide) rfl
    · exact hleft
    · cases herr
      cases hun
  · obtain ⟨err, herr, hmis | hun⟩ := (ofPostfix_valueCount.1
      [⟨.number, "2", 0⟩, ⟨.arith .mul, "*", 2⟩] (by decide) (by decide)).2.2.1 rfl
    · cases herr
      exact ⟨_, rfl, hmis, rfl⟩
    · cases herr
      cases hun
  · obtain ⟨e, he⟩ | ⟨err, herr, -⟩ := (ofPostfix_valueCount.1
      [⟨.var, "x", 1⟩, ⟨.sign .minus, "u-", 0⟩] (by decide) (by decide)).1 rfl
    · cases he
      exact ⟨_, rfl, rfl⟩
    · cases herr
  · obtain ⟨e, he⟩ | ⟨err, herr, -⟩ :=
      ofPostfix_valueCount.2 _ _ ⟨⟨.question, "?", 2⟩, by decide, rfl⟩ hps
    · cases he
      exact ⟨_, _, hps, rfl, rfl⟩
    · cases herr

end Postfix

end Formula
