import Formula.Expr
import Formula.Number.Literal
import Formula.Postfix

/-!
# The grammar of formulas

The grammar gives the sentences that are formulas, each with the tree that it denotes, without
saying how a sentence is read:

* a formula is one *comparison*, or a conditional `test ? yes : no` of three of them;
* a comparison joins a comparison and a sum by `<`, `>`, `<=`, `>=`, `==` or `!=`;
* a *sum* joins a sum and a product by `+` or `-`, a *product* joins a product and a power by `*`
  or `/`, and a *power* joins a power and a signed operand by `^`;
* a *signed* operand is a sign in front of a signed operand;
* a *primary* is a number, a variable, a comparison in parentheses, or a function with a
  comparison in parentheses;
* a phrase of each level is also one of the level that is looser by one.

So every operator between two operands associates to the left, and a sign binds tighter than `^`.
Parentheses leave no node in the tree.

* `Grammar.Derives` relates the phrases of a level to their trees.
* `Grammar.Sentence` relates the formulas to their trees.
-/

namespace Formula

namespace Grammar

/-- The levels of phrases, from the loosest to the tightest. -/
inductive Level where
  | comparison
  | sum
  | product
  | power
  | signed
  | primary
deriving DecidableEq, Repr

/-- The level that is tighter by one.  None is tighter than the primaries. -/
def Level.tighter : Level → Level
  | comparison => sum
  | sum => product
  | product => power
  | power => signed
  | signed => primary
  | primary => primary

/-- The level of the phrases that an operator forms. -/
def levelOf : Arith → Level
  | .add | .sub => .sum
  | .mul | .div => .product
  | .pow => .power

/-- The tokens are a phrase of the level, and the tree is what they denote.  A sign is written as
the operator `+` or `-`. -/
inductive Derives : Level → List Token → Expr → Prop
  | number {t : Token} {v : Float} : t.kind = .number → Number.literal? t.text = some v →
      Derives .primary [t] (.num v)
  | var {t : Token} : t.kind = .var → Derives .primary [t] (.var t.text)
  | parens {l r : Token} {ts : List Token} {e : Expr} : l.kind = .lparen → r.kind = .rparen →
      Derives .comparison ts e → Derives .primary (l :: ts ++ [r]) e
  | call {f l r : Token} {ts : List Token} {e : Expr} : f.kind = .func → l.kind = .lparen →
      r.kind = .rparen → Derives .comparison ts e →
      Derives .primary (f :: l :: ts ++ [r]) (.call f.text [e])
  | signed {t : Token} {s : Sign} {ts : List Token} {e : Expr} : t.kind = .arith s.operator →
      Derives .signed ts e → Derives .signed (t :: ts) (.signed s e)
  | arith {t : Token} {op : Arith} {ls rs : List Token} {l r : Expr} : t.kind = .arith op →
      Derives (levelOf op) ls l → Derives (levelOf op).tighter rs r →
      Derives (levelOf op) (ls ++ t :: rs) (.arith op l r)
  | compare {t : Token} {op : Comparison} {ls rs : List Token} {l r : Expr} :
      t.kind = .compare op → Derives .comparison ls l → Derives .sum rs r →
      Derives .comparison (ls ++ t :: rs) (.compare op l r)
  | tighter {level : Level} {ts : List Token} {e : Expr} : Derives level.tighter ts e →
      Derives level ts e

/-- The tokens are a formula, and the tree is what they denote. -/
inductive Sentence : List Token → Expr → Prop
  | plain {ts : List Token} {e : Expr} : Derives .comparison ts e → Sentence ts e
  | conditional {q k : Token} {cs ys ns : List Token} {c y n : Expr} : q.kind = .question →
      k.kind = .colon → Derives .comparison cs c → Derives .comparison ys y →
      Derives .comparison ns n → Sentence (cs ++ q :: (ys ++ k :: ns)) (.choice c y n)

variable {level : Level} {ts : List Token} {e : Expr}

/-- A primary is a phrase of every level. -/
theorem Derives.of_primary (h : Derives .primary ts e) : Derives level ts e := by
  have hsigned : Derives .signed ts e := .tighter h
  have hpower : Derives .power ts e := .tighter hsigned
  have hproduct : Derives .product ts e := .tighter hpower
  have hsum : Derives .sum ts e := .tighter hproduct
  cases level with
  | comparison => exact .tighter hsum
  | sum => exact hsum
  | product => exact hproduct
  | power => exact hpower
  | signed => exact hsigned
  | primary => exact h

/-- A phrase of any level is a comparison. -/
theorem Derives.comparison (h : Derives level ts e) : Derives .comparison ts e := by
  cases level with
  | comparison => exact h
  | sum => exact .tighter h
  | product => exact .tighter (.tighter h)
  | power => exact .tighter (.tighter (.tighter h))
  | signed => exact .tighter (.tighter (.tighter (.tighter h)))
  | primary => exact h.of_primary

/-- After the last token of a phrase no operand is due. -/
theorem Derives.exists_last (h : Derives level ts e) :
    ∃ init last, ts = init ++ [last] ∧ last.kind.awaitsOperand = false := by
  induction h with
  | number hk _ => exact ⟨[], _, rfl, by rw [hk]; rfl⟩
  | var hk => exact ⟨[], _, rfl, by rw [hk]; rfl⟩
  | parens _ hr _ _ => exact ⟨_, _, rfl, by rw [hr]; rfl⟩
  | call _ _ hr _ _ => exact ⟨_, _, rfl, by rw [hr]; rfl⟩
  | @signed t _ _ _ _ _ ih =>
    obtain ⟨init, last, rfl, hlast⟩ := ih
    exact ⟨t :: init, last, rfl, hlast⟩
  | @arith t _ ls _ _ _ _ _ _ _ ih =>
    obtain ⟨init, last, rfl, hlast⟩ := ih
    exact ⟨ls ++ t :: init, last, by simp, hlast⟩
  | @compare t _ ls _ _ _ _ _ _ _ ih =>
    obtain ⟨init, last, rfl, hlast⟩ := ih
    exact ⟨ls ++ t :: init, last, by simp, hlast⟩
  | tighter _ ih => exact ih

theorem Derives.ne_nil (h : Derives level ts e) : ts ≠ [] := by
  obtain ⟨init, last, rfl, -⟩ := h.exists_last
  simp

/-- No mark of a conditional is part of a phrase. -/
theorem Derives.not_isMark (h : Derives level ts e) : ∀ t ∈ ts, Postfix.isMark t = false := by
  induction h with
  | number hk _ => simp [Postfix.isMark, hk]
  | var hk => simp [Postfix.isMark, hk]
  | parens hl hr _ ih =>
    simp only [List.cons_append, List.forall_mem_cons, List.forall_mem_append]
    exact ⟨by simp [Postfix.isMark, hl], ih, by simp [Postfix.isMark, hr], by simp⟩
  | call hf hl hr _ ih =>
    simp only [List.cons_append, List.forall_mem_cons, List.forall_mem_append]
    exact ⟨by simp [Postfix.isMark, hf], by simp [Postfix.isMark, hl], ih,
      by simp [Postfix.isMark, hr], by simp⟩
  | signed hk _ ih => exact List.forall_mem_cons.2 ⟨by simp [Postfix.isMark, hk], ih⟩
  | arith hk _ _ ihl ihr =>
    simp only [List.forall_mem_append, List.forall_mem_cons]
    exact ⟨ihl, by simp [Postfix.isMark, hk], ihr⟩
  | compare hk _ _ ihl ihr =>
    simp only [List.forall_mem_append, List.forall_mem_cons]
    exact ⟨ihl, by simp [Postfix.isMark, hk], ihr⟩
  | tighter _ ih => exact ih

end Grammar

end Formula
