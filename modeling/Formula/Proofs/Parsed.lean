import Mathlib
import Formula.Curve
import Formula.Expr.Shape
import Formula.Proofs.Number.ReadBack
import Formula.Proofs.Postorder
import Formula.Proofs.Reading

/-!
# Trees that are read from a text

Parsing succeeds with the tree that the tokens of the text list once they are in postfix order, and
what holds of all tokens of a text is passed on to the leaves of its tree.

* `Expr.parse_eq_ok_iff` takes parsing apart into its stages.
* `Postfix.shaped_of_ofTokens`: the tree of tokens has a simple shape, and its leaves come from
  tokens.  So the tree of a text is as the tokens of the text ask (`Expr.shaped_of_parse`).
* `Expr.exists_shaped_of_parse`: the tree of a text has no negative numbers, one variable at most,
  and functions with one argument.
-/

namespace Formula

open Formula.Expr (Leaves)

variable {source : String} {e : Expr} {L : Leaves} {t : Token} {ts ps : List Token}

/-- The tree of a text is the one that its tokens list in postfix order. -/
theorem Expr.parse_eq_ok_iff :
    Expr.parse source = .ok e ↔ ∃ ts ps, Token.read source = .ok ts ∧
      Postfix.ofTokens ts = .ok ps ∧ Postorder ps e ∧ e.height ≤ Expr.maxHeight := by
  have hbuild (ps : List Token) : (Expr.ofPostfix ps).mapError CompileError.build = .ok e ↔
      Postorder ps e ∧ e.height ≤ Expr.maxHeight := by
    rw [← Expr.ofPostfix_eq_ok_iff]
    cases Expr.ofPostfix ps <;> simp [Except.mapError]
  unfold Expr.parse
  cases hts : Token.read source with
  | error err => simp [Except.mapError, bind, Except.bind]
  | ok ts =>
    cases hps : Postfix.ofTokens ts with
    | error err => simp [Except.mapError, bind, Except.bind, hps]
    | ok ps => simpa [Except.mapError, bind, Except.bind, hps] using hbuild ps

theorem Expr.parse_eq_ok_iff_of_read (hread : Token.read source = .ok ts) :
    Expr.parse source = .ok e ↔ ∃ ps, Postfix.ofTokens ts = .ok ps ∧ Postorder ps e ∧
      e.height ≤ Expr.maxHeight := by
  rw [Expr.parse_eq_ok_iff]
  constructor
  · rintro ⟨ts', ps, hread', h⟩
    obtain rfl : ts' = ts := by simpa [hread] using hread'.symm
    exact ⟨ps, h⟩
  · rintro ⟨ps, h⟩
    exact ⟨ts, ps, hread, h⟩

/-! ### From tokens to leaves -/

/-- A leaf that is made of the token is as asked. -/
structure Token.Supplies (L : Leaves) (t : Token) : Prop where
  num : t.kind = .number → ∀ v, Number.literal? t.text = some v → L.num v
  var : t.kind = .var → L.var t.text
  func : t.kind = .func → L.func t.text

/-- Without the mark of a conditional the tree is plain. -/
theorem Postorder.plain (h : Postorder ts e)
    (hts : ∀ t ∈ ts, t.Supplies L ∧ t.kind ≠ .choice) : e.Plain L := by
  induction h with
  | number hk hv => exact .num ((hts _ List.mem_cons_self).1.num hk _ hv)
  | var hk => exact .var ((hts _ List.mem_cons_self).1.var hk)
  | signed hk _ ih =>
    simp only [List.forall_mem_append] at hts
    exact .signed (ih hts.1)
  | arith hk _ _ ihl ihr =>
    simp only [List.forall_mem_append] at hts
    exact .arith (ihl hts.1.1) (ihr hts.1.2)
  | compare hk _ _ ihl ihr =>
    simp only [List.forall_mem_append] at hts
    exact .compare (ihl hts.1.1) (ihr hts.1.2)
  | @choice t _ _ _ _ _ _ hk =>
    exact absurd hk (hts t (List.mem_append_right _ List.mem_cons_self)).2
  | @call t _ _ hk _ ih =>
    simp only [List.forall_mem_append] at hts
    exact .call ((hts.2 t List.mem_cons_self).1.func hk) (ih hts.1)

/-- A mark of a conditional at the end of the tokens stands for the root of the tree. -/
theorem Postorder.exists_choice (h : Postorder (ts ++ [t]) e) (ht : t.kind = .choice) :
    ∃ cs ys ns c y n, ts = cs ++ ys ++ ns ∧ e = .choice c y n ∧ Postorder cs c ∧
      Postorder ys y ∧ Postorder ns n := by
  generalize hl : ts ++ [t] = l at h
  have hlast := congrArg List.getLast? hl
  cases h
  case choice cs ys ns c y n hk hc hy hn =>
    exact ⟨cs, ys, ns, c, y, n, (List.append_inj' hl rfl).1, rfl, hc, hy, hn⟩
  all_goals
    -- the token at the end has another kind
    simp only [List.getLast?_concat, List.getLast?_singleton, Option.some.injEq] at hlast
    simp_all

namespace Postfix

/-- A part that is put into postfix order has no marks, and its leaves are those of its tokens. -/
theorem supplies_of_reorder {us : List Token} (h : reorder us = .ok ps)
    (hus : ∀ t ∈ us, t ∈ Token.markSigns ts) (hts : ∀ t ∈ ts, t.Supplies L) :
    ∀ t ∈ ps, t.Supplies L ∧ t.kind ≠ .choice := by
  intro t ht
  refine ⟨?_, ne_choice_of_reorder h t ht⟩
  rcases Token.mem_markSignsFrom (hus t (mem_of_reorder h ht)) with ht | ⟨s, hs⟩
  · exact hts t ht
  · -- a sign supplies no leaf
    constructor <;> simp [hs]

/-- **The tree of tokens has a simple shape**, and its leaves are those of the tokens. -/
theorem shaped_of_ofTokens (h : ofTokens ts = .ok ps) (hpost : Postorder ps e)
    (hts : ∀ t ∈ ts, t.Supplies L) : e.Shaped L := by
  obtain h | ⟨cs, q, ys, k, ns, hmarked, -, -, pc, py, pn, hc, hy, hn, rfl⟩ := ofTokens_cases h
  · have hps := supplies_of_reorder h (fun _ ht => ht) hts
    exact .plain (hpost.plain hps)
  · have hpc := supplies_of_reorder (part_eq_ok_iff.1 hc).1
      (fun t ht => by simp [hmarked, ht]) hts
    have hpy := supplies_of_reorder (part_eq_ok_iff.1 hy).1
      (fun t ht => by simp [hmarked, ht]) hts
    have hpn := supplies_of_reorder (part_eq_ok_iff.1 hn).1
      (fun t ht => by simp [hmarked, ht]) hts
    have hall : ∀ t ∈ pc ++ py ++ pn, t.Supplies L ∧ t.kind ≠ .choice := by
      simp only [List.forall_mem_append]
      exact ⟨⟨hpc, hpy⟩, hpn⟩
    -- where the tree cuts the tokens into its three parts does not matter
    obtain ⟨cs, ys, ns, c, y, n, hlist, rfl, hc, hy, hn⟩ := hpost.exists_choice rfl
    rw [hlist] at hall
    simp only [List.forall_mem_append] at hall
    exact .choice (hc.plain hall.1.1) (hy.plain hall.1.2) (hn.plain hall.2)

end Postfix

/-- The tree of a text has a simple shape, and its leaves are those of the tokens. -/
theorem Expr.shaped_of_parse (h : Expr.parse source = .ok e)
    (hts : ∀ ts, Token.read source = .ok ts → ∀ t ∈ ts, t.Supplies L) : e.Shaped L := by
  obtain ⟨ts, ps, hread, hps, hpost, -⟩ := Expr.parse_eq_ok_iff.1 h
  exact Postfix.shaped_of_ofTokens hps hpost (hts ts hread)

/-- The leaves of a tree that is read, where `x` is its variable. -/
def Expr.readLeaves (x : String) : Leaves where
  num v := Number.isNegative v = false
  var n := n = x ∧ Token.VarName n
  func := Token.FuncName

theorem Expr.exists_shaped_of_parse (h : Expr.parse source = .ok e) :
    ∃ x, e.Shaped (Expr.readLeaves x) := by
  obtain ⟨ts, -, hread, -⟩ := Expr.parse_eq_ok_iff.1 h
  have hreads := Token.reads_of_readFrom hread
  obtain ⟨x, -, hx⟩ := hreads.exists_variable
  refine ⟨x, Expr.shaped_of_parse h ?_⟩
  intro ts' hread' t ht
  obtain rfl : ts' = ts := by simpa [hread] using hread'.symm
  have hlex := hreads.isLexeme t ht
  constructor
  · intro hk v hv
    exact Number.isNegative_of_literal? hv (hlex.head?_ne_minus hk)
  · intro hk
    exact ⟨hx t ht hk, hlex.var hk⟩
  · exact hlex.func

end Formula
