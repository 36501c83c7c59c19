import Formula.Proofs.Nodes
import Formula.Proofs.Reordering

/-!
# Conditionals, part by part

The signs of a conditional are marked before it is cut into its parts, and its tree is built from
one sequence of tokens that has lost the borders between them.  Neither lets one part reach into
another.

* `Postfix.Builds` says that tokens build a tree.
* `Postfix.ofTokens_iff_part`: a formula without marks builds a tree just if it is a part of which
  postfix order lists the tree.
* `Postorder.choice_parts`: where each part leaves one value, the borders between the parts are
  those between the operands of the conditional.
* **`Postfix.builds_conditional_iff`**: a conditional builds a tree just if its three parts build
  trees by themselves, and these are the operands of the tree.
-/

namespace Formula

open Formula.Expr (maxHeight)

/-- The number tokens of a tree have values. -/
theorem Postorder.exists_literal {ts : List Token} {e : Expr} (h : Postorder ts e) :
    ∀ t ∈ ts, t.kind = .number → ∃ v, Number.literal? t.text = some v := by
  intro t ht hk
  obtain ⟨m, hm⟩ := h.exists_node? t ht
  simp only [Token.node?, hk] at hm
  obtain ⟨v, hv, -⟩ := Option.map_eq_some_iff.1 hm
  exact ⟨v, hv⟩

/-- Three runs of tokens that leave one value each are the operands of a conditional. -/
theorem Postorder.choice_parts {cs ys ns : List Token} {t : Token} {e : Expr}
    (h : Postorder (cs ++ ys ++ ns ++ [t]) e) (ht : t.kind = .choice)
    (hcs : Postfix.valueCount cs = some 1) (hys : Postfix.valueCount ys = some 1)
    (hns : Postfix.valueCount ns = some 1) :
    ∃ c y n, e = .choice c y n ∧ Postorder cs c ∧ Postorder ys y ∧ Postorder ns n := by
  have hnum := h.exists_literal
  simp only [List.forall_mem_append] at hnum
  obtain ⟨c, hc⟩ := Postfix.exists_postorder_of_valueCount hcs hnum.1.1.1
  obtain ⟨y, hy⟩ := Postfix.exists_postorder_of_valueCount hys hnum.1.1.2
  obtain ⟨n, hn⟩ := Postfix.exists_postorder_of_valueCount hns hnum.1.2
  -- no tokens list two trees
  exact ⟨c, y, n, h.unique (.choice ht hc hy hn), hc, hy, hn⟩

namespace Postfix

variable {cs ys ns ts ps : List Token} {q k : Token} {e : Expr}

/-- The tokens of a formula build the tree. -/
def Builds (ts : List Token) (e : Expr) : Prop :=
  ∃ ps, ofTokens ts = .ok ps ∧ Expr.ofPostfix ps = .ok e

theorem builds_iff : Builds ts e ↔
    (∃ ps, ofTokens ts = .ok ps ∧ Postorder ps e) ∧ e.height ≤ maxHeight := by
  simp only [Builds, Expr.ofPostfix_eq_ok_iff, ← and_assoc, exists_and_right]

/-- A plain formula that lists a tree is a part that leaves one value. -/
theorem ofTokens_iff_part (h : ∀ t ∈ ts, isMark t = false) (pos : Nat) (hpost : Postorder ps e) :
    ofTokens ts = .ok ps ↔ part pos (Token.markSigns ts) = .ok ps := by
  rw [ofTokens_of_isMark h, part_eq_ok_iff, iff_self_and]
  exact fun hps => valueCount_of_postorder hpost (ne_choice_of_reorder hps)

/-- **A conditional is read part by part.**  It builds a tree just if each of its three parts builds
a tree by itself, and these form a conditional that is not too high. -/
theorem builds_conditional_iff (hq : q.kind = .question) (hk : k.kind = .colon)
    (hcs : ∀ t ∈ cs, isMark t = false) (hys : ∀ t ∈ ys, isMark t = false)
    (hns : ∀ t ∈ ns, isMark t = false) (hc : cs ≠ []) (hy : ys ≠ []) (hn : ns ≠ []) :
    Builds (cs ++ [q] ++ ys ++ [k] ++ ns) e ↔
      ∃ c y n, Builds cs c ∧ Builds ys y ∧ Builds ns n ∧
        1 + max c.height (max y.height n.height) ≤ maxHeight ∧ e = .choice c y n := by
  have happend : cs ++ [q] ++ ys ++ [k] ++ ns = cs ++ q :: (ys ++ k :: ns) := by simp
  rw [happend]
  simp only [builds_iff, ofTokens_conditional_eq_ok_iff hq hk hcs hys hns hc hy hn]
  constructor
  · rintro ⟨⟨ps, ⟨pc, py, pn, hpc, hpy, hpn, rfl⟩, hpost⟩, hle⟩
    obtain ⟨c, y, n, rfl, hpostc, hposty, hpostn⟩ := hpost.choice_parts rfl
      (part_eq_ok_iff.1 hpc).2 (part_eq_ok_iff.1 hpy).2 (part_eq_ok_iff.1 hpn).2
    have hpc := (ofTokens_iff_part hcs q.pos hpostc).2 hpc
    have hpy := (ofTokens_iff_part hys q.pos hposty).2 hpy
    have hpn := (ofTokens_iff_part hns q.pos hpostn).2 hpn
    simp only [Expr.height] at hle
    exact ⟨c, y, n, ⟨⟨pc, hpc, hpostc⟩, by omega⟩, ⟨⟨py, hpy, hposty⟩, by omega⟩,
      ⟨⟨pn, hpn, hpostn⟩, by omega⟩, hle, rfl⟩
  · rintro ⟨c, y, n, ⟨⟨pc, hpc, hpostc⟩, -⟩, ⟨⟨py, hpy, hposty⟩, -⟩, ⟨⟨pn, hpn, hpostn⟩, -⟩, hle,
      rfl⟩
    have hpc := (ofTokens_iff_part hcs q.pos hpostc).1 hpc
    have hpy := (ofTokens_iff_part hys q.pos hposty).1 hpy
    have hpn := (ofTokens_iff_part hns q.pos hpostn).1 hpn
    exact ⟨⟨_, ⟨pc, py, pn, hpc, hpy, hpn, rfl⟩, .choice rfl hpostc hposty hpostn⟩, hle⟩

/-- The conditional `x ? -1 : sin(x)`, whose second part starts with a sign. -/
theorem builds_conditional_sin :
    Builds ([⟨.var, "x", 0⟩] ++ [⟨.question, "?", 2⟩] ++ [⟨.arith .sub, "-", 4⟩, ⟨.number, "1", 5⟩] ++
        [⟨.colon, ":", 7⟩] ++ [⟨.func, "sin", 9⟩, ⟨.lparen, "(", 12⟩, ⟨.var, "x", 13⟩,
          ⟨.rparen, ")", 14⟩])
      (.choice (.var "x") (.signed .minus (.num 1)) (.call "sin" [.var "x"])) :=
  (builds_conditional_iff rfl rfl (by decide) (by decide) (by decide) (by decide) (by decide)
    (by decide)).2 ⟨.var "x", .signed .minus (.num 1), .call "sin" [.var "x"], ⟨_, rfl, rfl⟩,
      ⟨_, rfl, rfl⟩, ⟨_, rfl, rfl⟩, by decide, rfl⟩

end Postfix

end Formula
