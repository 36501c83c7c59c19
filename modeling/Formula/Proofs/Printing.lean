import Formula.Expr.Printer
import Formula.Proofs.Lexing
import Formula.Proofs.Parsed
import Formula.Proofs.Reordering

/-!
# Printing and reading back

What `Expr.render` writes for a tree is a formula that denotes the tree, except that a negative
number reads back as the negation of a number.

* `ReadsAs` says what a piece of text is read as, wherever it stands in a formula, and
  `ReadsAs.signed`, `ReadsAs.binary` and `ReadsAs.call` put such pieces together.
* `Expr.desugar` writes the negative numbers of a tree as negations, and `Spells` says which tokens
  the text of a tree is made of.
* **`exists_read_render`**: the text of a tree is read as tokens that denote it, and the
  numbers among them are finite.
-/

namespace Formula

open Token (Kind Reads IsToken Stops)
open Grammar

/-! ### Pieces with several tokens -/

/-- The text is read as tokens of which `P` holds, wherever it stands in a formula with the variable
`x`. -/
def ReadsAs (x : String) (text : List Char) (P : List Token → Prop) : Prop :=
  ∀ seen pos, (∀ y, seen = some y → y = x) →
    ∃ seen' pos' ts, (∀ y, seen' = some y → y = x) ∧ P ts ∧
      ∀ rest us, Stops rest → Reads seen' pos' rest us → Reads seen pos (text ++ rest) (ts ++ us)

variable {x s : String} {k : Kind} {l r : List Char} {P Q : List Token → Prop}

/-- The text is also read as tokens of which less is said. -/
theorem ReadsAs.imp {text : List Char} (h : ReadsAs x text P) (hPQ : ∀ ts, P ts → Q ts) :
    ReadsAs x text Q := by
  intro seen pos hseen
  obtain ⟨seen', pos', ts, hseen', hP, hread⟩ := h seen pos hseen
  exact ⟨seen', pos', ts, hseen', hPQ ts hP, hread⟩

theorem readsAs_piece (hs : IsToken s k) (hk : k ≠ .var) :
    ReadsAs x s.toList fun ts => ∃ pos, ts = [⟨k, s, pos⟩] := by
  intro seen pos hseen
  refine ⟨seen, pos + s.toList.length, [⟨k, s, pos⟩], hseen, ⟨pos, rfl⟩, fun rest us hrest h => ?_⟩
  exact .piece hs hrest (Token.track_of_ne_var hk) h

theorem readsAs_var (hs : IsToken x .var) :
    ReadsAs x x.toList fun ts => ∃ pos, ts = [⟨.var, x, pos⟩] := by
  intro seen pos hseen
  have htrack : Token.track seen ⟨.var, x, pos⟩ = .ok (some x) := by
    cases seen with
    | none => rfl
    | some y =>
      obtain rfl := hseen y rfl
      simp [Token.track]
  refine ⟨some x, pos + x.toList.length, [⟨.var, x, pos⟩], fun y hy => (Option.some.inj hy).symm,
    ⟨pos, rfl⟩, fun rest us hrest h => ?_⟩
  exact .piece hs hrest htrack h

/-- A sign and a piece in parentheses. -/
theorem ReadsAs.signed (h : ReadsAs x r P) (s : Sign) :
    ReadsAs x ('(' :: (s.symbol.toList ++ (r ++ [')']))) fun ts => ∃ o t c rs, o.kind = .lparen ∧
      t.kind = .arith s.operator ∧ c.kind = .rparen ∧ P rs ∧ ts = o :: (t :: rs) ++ [c] := by
  intro seen pos hseen
  obtain ⟨seen', pos', rs, hseen', hP, hread⟩ := h seen (pos + 2) hseen
  refine ⟨seen', pos' + 1, _, hseen', ⟨⟨.lparen, "(", pos⟩, ⟨_, s.symbol, pos + 1⟩,
    ⟨.rparen, ")", pos'⟩, rs, rfl, rfl, rfl, hP, rfl⟩, fun rest us hrest h => ?_⟩
  have hclose := hread (')' :: rest) _ Token.stops_rparen (.rparen h)
  have htext := Reads.lparen (.sign s hclose)
  simpa using htext

/-- Two pieces in parentheses, with a symbol between them. -/
theorem ReadsAs.binary (hl : ReadsAs x l P) (hr : ReadsAs x r Q) (hs : IsToken s k)
    (hk : k ≠ .var) :
    ReadsAs x ('(' :: (l ++ ' ' :: (s.toList ++ ' ' :: (r ++ [')'])))) fun ts =>
      ∃ o t c ls rs, o.kind = .lparen ∧ t.kind = k ∧ c.kind = .rparen ∧ P ls ∧ Q rs ∧
        ts = o :: (ls ++ t :: rs) ++ [c] := by
  intro seen pos hseen
  obtain ⟨seen₁, pos₁, ls, hseen₁, hP, hreadl⟩ := hl seen (pos + 1) hseen
  obtain ⟨seen₂, pos₂, rs, hseen₂, hQ, hreadr⟩ := hr seen₁ (pos₁ + 1 + s.toList.length + 1) hseen₁
  refine ⟨seen₂, pos₂ + 1, _, hseen₂, ⟨⟨.lparen, "(", pos⟩, ⟨k, s, pos₁ + 1⟩,
    ⟨.rparen, ")", pos₂⟩, ls, rs, rfl, rfl, rfl, hP, hQ, rfl⟩, fun rest us hrest h => ?_⟩
  have hclose := hreadr (')' :: rest) _ Token.stops_rparen (.rparen h)
  have htext := Reads.lparen (hreadl _ _ Token.stops_space (.between hs hk hclose))
  simpa using htext

/-- A function with a piece in parentheses. -/
theorem ReadsAs.call (h : ReadsAs x r P) (hs : IsToken s .func) :
    ReadsAs x (s.toList ++ '(' :: (r ++ [')'])) fun ts => ∃ f o c rs, f.kind = .func ∧
      f.text = s ∧ o.kind = .lparen ∧ c.kind = .rparen ∧ P rs ∧ ts = f :: o :: rs ++ [c] := by
  intro seen pos hseen
  obtain ⟨seen', pos', rs, hseen', hP, hread⟩ := h seen (pos + s.toList.length + 1) hseen
  refine ⟨seen', pos' + 1, _, hseen', ⟨⟨.func, s, pos⟩, ⟨.lparen, "(", pos + s.toList.length⟩,
    ⟨.rparen, ")", pos'⟩, rs, rfl, rfl, rfl, rfl, hP, rfl⟩, fun rest us hrest h => ?_⟩
  have hclose := hread (')' :: rest) _ Token.stops_rparen (.rparen h)
  have htext := Reads.piece hs Token.stops_lparen
    (Token.track_of_ne_var (t := ⟨.func, s, pos⟩) (by simp)) (.lparen hclose)
  simpa using htext

/-! ### Trees without negative numbers -/

namespace Expr

mutual

/-- The tree with each negative number replaced by the negation of a number. -/
def desugar : Expr → Expr
  | num v => if Number.isNegative v then signed .minus (num (-v)) else num v
  | var n => var n
  | signed s x => signed s x.desugar
  | arith op l r => arith op l.desugar r.desugar
  | compare op l r => compare op l.desugar r.desugar
  | choice c t e => choice c.desugar t.desugar e.desugar
  | call name args => call name (desugarAll args)

/-- Several trees with each negative number replaced. -/
def desugarAll : List Expr → List Expr
  | [] => []
  | x :: xs => x.desugar :: desugarAll xs

end

theorem desugarAll_eq_map (xs : List Expr) : desugarAll xs = xs.map desugar := by
  induction xs with
  | nil => rfl
  | cons x xs ih => rw [desugarAll, ih, List.map_cons]

/-- A tree without negative numbers stays as it is. -/
theorem desugar_eq_self {e : Expr} (h : ∀ v ∈ e.nums, Number.isNegative v = false) :
    e.desugar = e := by
  induction e with
  | num v => rw [desugar, h v List.mem_cons_self, if_neg Bool.false_ne_true]
  | var n => rfl
  | signed s x ih => rw [desugar, ih h]
  | arith op l r ihl ihr | compare op l r ihl ihr =>
    simp only [nums, List.forall_mem_append] at h
    rw [desugar, ihl h.1, ihr h.2]
  | choice c t e ihc iht ihe =>
    simp only [nums, List.forall_mem_append] at h
    rw [desugar, ihc h.1.1, iht h.1.2, ihe h.2]
  | call name args ih =>
    rw [desugar, desugarAll_eq_map]
    have hargs : args.map desugar = args.map id := List.map_congr_left fun x hx =>
      ih x hx fun v hv => h v (mem_numsAll.2 ⟨x, hx, hv⟩)
    rw [hargs, List.map_id]

end Expr

/-! ### The tokens of a printed tree -/

/-- No number among the tokens has a value that is not finite. -/
def FiniteNumbers (ts : List Token) : Prop :=
  ∀ t ∈ ts, t.kind = .number → ∀ v, Number.literal? t.text = some v → v.isFinite = true

theorem finiteNumbers_append {ts us : List Token} :
    FiniteNumbers (ts ++ us) ↔ FiniteNumbers ts ∧ FiniteNumbers us := List.forall_mem_append

theorem finiteNumbers_cons {t : Token} {ts : List Token} (hk : t.kind ≠ .number) :
    FiniteNumbers (t :: ts) ↔ FiniteNumbers ts := by
  rw [FiniteNumbers, List.forall_mem_cons, and_iff_right fun h => absurd h hk]
  rfl

theorem finiteNumbers_parens {o c : Token} {ts : List Token} (ho : o.kind = .lparen)
    (hc : c.kind = .rparen) : FiniteNumbers (o :: ts ++ [c]) ↔ FiniteNumbers ts := by
  rw [finiteNumbers_append, finiteNumbers_cons (by simp [ho]), finiteNumbers_cons (by simp [hc])]
  exact and_iff_left (by simp [FiniteNumbers])

theorem finiteNumbers_binary {o t c : Token} {ls rs : List Token} (ho : o.kind = .lparen)
    (ht : t.kind ≠ .number) (hc : c.kind = .rparen) :
    FiniteNumbers (o :: (ls ++ t :: rs) ++ [c]) ↔ FiniteNumbers ls ∧ FiniteNumbers rs := by
  rw [finiteNumbers_parens ho hc, finiteNumbers_append, finiteNumbers_cons ht]

/-- The tokens are those of the printed tree.  They are a phrase if the tree has only finite
numbers. -/
structure Spells (e : Expr) (ts : List Token) : Prop where
  finite : FiniteNumbers ts
  derives : (∀ v ∈ e.nums, v.isFinite = true) → Derives .primary ts e.desugar

theorem spells_magnitude {v : Float} (hpos : Number.isNegative v = false) (pos : Nat) :
    Spells (.num v) [⟨if v.isFinite then .number else .func, Number.renderMagnitude v, pos⟩] := by
  have hdesugar : (Expr.num v).desugar = .num v := Expr.desugar_eq_self (by simpa [Expr.nums])
  cases hv : v.isFinite with
  | true =>
    have hread := Number.literal?_renderMagnitude hv hpos
    refine ⟨fun t ht _ w hw => ?_, fun _ => ?_⟩
    · rw [List.mem_singleton.1 ht, hread, Option.some.injEq] at hw
      rwa [← hw]
    · rw [hdesugar]
      exact .number rfl hread
  | false =>
    refine ⟨fun t ht hk => ?_, fun hall => ?_⟩
    · rw [List.mem_singleton.1 ht] at hk
      cases hk
    · have hfinite := hall v List.mem_cons_self
      rw [hv] at hfinite
      cases hfinite

/-- A number is read as a number, or as a sign and a number in parentheses. -/
theorem readsAs_renderNum (x : String) (v : Float) :
    ReadsAs x (Expr.renderNum v).toList (Spells (.num v)) := by
  have hmagnitude {w : Float} (hw : Number.isNegative w = false) :
      ReadsAs x (Number.renderMagnitude w).toList (Spells (.num w)) := by
    refine (readsAs_piece (Token.isToken_renderMagnitude hw) (by split <;> simp)).imp ?_
    rintro ts ⟨pos, rfl⟩
    exact spells_magnitude hw pos
  cases hneg : Number.isNegative v with
  | false =>
    have htext : Expr.renderNum v = Number.renderMagnitude v := by
      simp [Expr.renderNum, Number.render, hneg]
    rw [htext]
    exact hmagnitude hneg
  | true =>
    -- the minus sign and the magnitude of `-v` are separate tokens
    have htext : (Expr.renderNum v).toList =
        '(' :: (Sign.minus.symbol.toList ++ ((Number.renderMagnitude (-v)).toList ++ [')'])) := by
      simp [Expr.renderNum, Number.render, hneg, Sign.symbol]
    rw [htext]
    refine ((hmagnitude (Number.isNegative_neg hneg)).signed .minus).imp ?_
    rintro ts ⟨o, t, c, rs, ho, ht, hc, hrs, rfl⟩
    have hdesugar : (Expr.num (-v)).desugar = .num (-v) :=
      Expr.desugar_eq_self (by simpa [Expr.nums] using Number.isNegative_neg hneg)
    constructor
    · rw [finiteNumbers_parens ho hc, finiteNumbers_cons (by simp [ht])]
      exact hrs.finite
    · intro hall
      have hfinite : (-v).isFinite = true := by
        rw [Number.isFinite_neg]
        exact hall v List.mem_cons_self
      have hnum := hrs.derives (by simpa [Expr.nums] using hfinite)
      rw [hdesugar] at hnum
      have hsigned := Derives.signed (s := .minus) ht hnum.of_primary
      rw [Expr.desugar, if_pos hneg]
      exact .parens ho hc hsigned.comparison

variable {L : Expr.Leaves} {e : Expr}

/-- A printed tree is read as its tokens. -/
theorem readsAs_render (hvar : ∀ n, L.var n → n = x ∧ Token.VarName n)
    (hfunc : ∀ n, L.func n → Token.FuncName n) (h : e.Plain L) :
    ReadsAs x e.render.toList (Spells e) := by
  induction h with
  | num _ => exact readsAs_renderNum x _
  | @var n hn =>
    obtain ⟨rfl, hname⟩ := hvar n hn
    refine (readsAs_var hname.isToken).imp ?_
    rintro ts ⟨pos, rfl⟩
    exact ⟨by simp [FiniteNumbers], fun _ => .var rfl⟩
  | @signed s y _ ih =>
    have htext : (Expr.signed s y).render.toList =
        '(' :: (s.symbol.toList ++ (y.render.toList ++ [')'])) := by
      simp [Expr.render]
    rw [htext]
    refine (ih.signed s).imp ?_
    rintro ts ⟨o, t, c, rs, ho, ht, hc, hrs, rfl⟩
    constructor
    · rw [finiteNumbers_parens ho hc, finiteNumbers_cons (by simp [ht])]
      exact hrs.finite
    · intro hall
      exact .parens ho hc (Derives.signed ht (hrs.derives hall).of_primary).comparison
  | @arith op l r _ _ ihl ihr =>
    have htext : (Expr.arith op l r).render.toList = '(' :: (l.render.toList ++
        ' ' :: (op.symbol.toList ++ ' ' :: (r.render.toList ++ [')']))) := by
      simp [Expr.render]
    rw [htext]
    refine (ihl.binary ihr (Token.isToken_arith op) (by simp)).imp ?_
    rintro ts ⟨o, t, c, ls, rs, ho, ht, hc, hls, hrs, rfl⟩
    constructor
    · exact (finiteNumbers_binary ho (by simp [ht]) hc).2 ⟨hls.finite, hrs.finite⟩
    · intro hall
      simp only [Expr.nums, List.forall_mem_append] at hall
      have harith := Derives.arith ht (hls.derives hall.1).of_primary (hrs.derives hall.2).of_primary
      exact .parens ho hc harith.comparison
  | @compare op l r _ _ ihl ihr =>
    have htext : (Expr.compare op l r).render.toList = '(' :: (l.render.toList ++
        ' ' :: (op.symbol.toList ++ ' ' :: (r.render.toList ++ [')']))) := by
      simp [Expr.render]
    rw [htext]
    refine (ihl.binary ihr (Token.isToken_compare op) (by simp)).imp ?_
    rintro ts ⟨o, t, c, ls, rs, ho, ht, hc, hls, hrs, rfl⟩
    constructor
    · exact (finiteNumbers_binary ho (by simp [ht]) hc).2 ⟨hls.finite, hrs.finite⟩
    · intro hall
      simp only [Expr.nums, List.forall_mem_append] at hall
      exact .parens ho hc
        (.compare ht (hls.derives hall.1).of_primary (hrs.derives hall.2).of_primary)
  | @call name y hn _ ih =>
    have htext : (Expr.call name [y]).render.toList =
        name.toList ++ '(' :: (y.render.toList ++ [')']) := by
      simp [Expr.render, Expr.renderArgs]
    rw [htext]
    refine (ih.call (hfunc name hn).isToken).imp ?_
    rintro ts ⟨f, o, c, rs, hf, rfl, ho, hc, hrs, rfl⟩
    constructor
    · rw [List.cons_append, finiteNumbers_cons (by simp [hf]), finiteNumbers_parens ho hc]
      exact hrs.finite
    · intro hall
      rw [Expr.nums_call_one] at hall
      exact .call hf ho hc (hrs.derives hall).comparison

/-! ### Whole formulas -/

/-- A printed tree is read as tokens without infinite numbers, which are a formula if the tree has
only finite ones. -/
theorem exists_read_render (hvar : ∀ n, L.var n → n = x ∧ Token.VarName n)
    (hfunc : ∀ n, L.func n → Token.FuncName n) (h : e.Shaped L) :
    ∃ ts, Token.read e.render = .ok ts ∧ FiniteNumbers ts ∧
      ((∀ v ∈ e.nums, v.isFinite = true) → Sentence ts e.desugar) := by
  cases h with
  | plain h =>
    obtain ⟨seen, pos, ts, -, hspells, hread⟩ := readsAs_render hvar hfunc h none 0 (by simp)
    refine ⟨ts, ?_, hspells.finite, fun hall => .plain (hspells.derives hall).comparison⟩
    have hreads := hread [] [] Token.stops_nil .nil
    rw [List.append_nil, List.append_nil] at hreads
    exact hreads.readFrom
  | @choice c y n hc hy hn =>
    obtain ⟨seen₁, pos₁, cs, hseen₁, hcs, hreadc⟩ :=
      readsAs_render hvar hfunc hc none 0 (by simp)
    obtain ⟨seen₂, pos₂, ys, hseen₂, hys, hready⟩ :=
      readsAs_render hvar hfunc hy seen₁ (pos₁ + 3) hseen₁
    obtain ⟨seen₃, pos₃, ns, -, hns, hreadn⟩ :=
      readsAs_render hvar hfunc hn seen₂ (pos₂ + 3) hseen₂
    refine ⟨cs ++ ⟨.question, "?", pos₁ + 1⟩ :: (ys ++ ⟨.colon, ":", pos₂ + 1⟩ :: ns), ?_, ?_, ?_⟩
    · -- the parts are put in front of each other, from the last one on
      have hno := hreadn [] [] Token.stops_nil .nil
      have hyes := hready _ _ Token.stops_space (.between Token.isToken_colon (by simp) hno)
      have htest := hreadc _ _ Token.stops_space (.between Token.isToken_question (by simp) hyes)
      have hreads : Reads none 0 (Expr.choice c y n).render.toList
          (cs ++ ⟨.question, "?", pos₁ + 1⟩ :: (ys ++ ⟨.colon, ":", pos₂ + 1⟩ :: ns)) := by
        simpa [Expr.render] using htest
      exact hreads.readFrom
    · rw [finiteNumbers_append, finiteNumbers_cons (by simp), finiteNumbers_append,
        finiteNumbers_cons (by simp)]
      exact ⟨hcs.finite, hys.finite, hns.finite⟩
    · intro hall
      simp only [Expr.nums, List.forall_mem_append] at hall
      exact .conditional rfl rfl (hcs.derives hall.1.1).comparison
        (hys.derives hall.1.2).comparison (hns.derives hall.2).comparison

end Formula
