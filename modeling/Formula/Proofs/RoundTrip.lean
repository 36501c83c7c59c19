import Formula.Proofs.Printing

/-!
# Round trips through text

* `Expr.Printable` describes the trees that can be printed as a formula.
* **`Expr.parse_render`**: a printable tree that is printed reads back, up to negative numbers.
* **`Expr.parse_render_iff`**: a tree that was read reads back when it is printed, just if all its
  numbers are finite.  A long run of digits reads as infinity, which is printed as `inf`.
-/

namespace Formula

namespace Expr

variable {source : String} {t e : Expr} {L : Leaves} {x : String}

/-- The leaves of a tree that can be printed: finite numbers, the variable `x`, and functions with
names that are read as names of functions. -/
def printableLeaves (x : String) : Leaves where
  num v := v.isFinite = true
  var n := n = x ∧ Token.VarName n
  func := Token.FuncName

/-- The tree can be printed as a formula, of which it is the tree up to negative numbers. -/
def Printable (t : Expr) : Prop := ∃ x, t.Shaped (printableLeaves x)

/-- A tree with finite numbers reads back. -/
theorem parse_render_of_shaped (hvar : ∀ n, L.var n → n = x ∧ Token.VarName n)
    (hfunc : ∀ n, L.func n → Token.FuncName n) (h : t.Shaped L)
    (hfinite : ∀ v ∈ t.nums, v.isFinite = true) (hle : t.desugar.height ≤ maxHeight) :
    parse t.render = .ok t.desugar := by
  obtain ⟨ts, hread, -, hsentence⟩ := exists_read_render hvar hfunc h
  obtain ⟨ps, hps, hpost⟩ := Postfix.ofTokens_sentence (hsentence hfinite)
  exact parse_eq_ok_iff.2 ⟨ts, ps, hread, hps, hpost, hle⟩

/-- A tree with other numbers reads back as a tree without them, if at all. -/
theorem isFinite_of_parse_render (hvar : ∀ n, L.var n → n = x ∧ Token.VarName n)
    (hfunc : ∀ n, L.func n → Token.FuncName n) (h : t.Shaped L) (he : parse t.render = .ok e) :
    ∀ v ∈ e.nums, v.isFinite = true := by
  obtain ⟨ts, hread, hfinite, -⟩ := exists_read_render hvar hfunc h
  obtain ⟨ts', ps, hread', hps, hpost, -⟩ := parse_eq_ok_iff.1 he
  -- the numbers of `e` come from the tokens of the text, all of which are finite
  obtain rfl : ts' = ts := by simpa [hread] using hread'.symm
  have hshape : e.Shaped ⟨fun v => v.isFinite = true, fun _ => True, fun _ => True⟩ :=
    Postfix.shaped_of_ofTokens hps hpost fun t ht =>
      ⟨fun hk v hv => hfinite t ht hk v hv, fun _ => trivial, fun _ => trivial⟩
  exact fun v hv => hshape.of_mem_nums hv

/-- **A printable tree reads back**, with each negative number as the negation of a number; so a
tree without negative numbers reads back as it is. -/
theorem parse_render (h : t.Printable) (hle : t.desugar.height ≤ maxHeight) :
    parse t.render = .ok t.desugar ∧
      ((∀ v ∈ t.nums, Number.isNegative v = false) → parse t.render = .ok t) := by
  obtain ⟨x, h⟩ := h
  have hparse := parse_render_of_shaped (fun _ hn => hn) (fun _ hn => hn) h
    (fun v hv => h.of_mem_nums hv) hle
  refine ⟨hparse, ?_⟩
  intro hnums
  rwa [desugar_eq_self hnums] at hparse

/-- The formula `(x < (-0.5)) ? sin(2) : (-x)` reads back. -/
theorem parse_render_conditional :
    parse "(x < (-0.5)) ? sin(2) : (-x)" =
      .ok (.choice (.compare .lt (.var "x") (.signed .minus (.num 0.5))) (.call "sin" [.num 2])
        (.signed .minus (.var "x"))) := by
  have hx : (Expr.var "x").Plain (printableLeaves "x") :=
    .var ⟨rfl, 'x', rfl, by decide, by decide, by decide, by decide⟩
  have hsin : Token.FuncName "sin" :=
    ⟨'s', ['i', 'n'], rfl, by decide, by decide, by decide, by decide,
      List.all_eq_true.1 (by decide), by decide⟩
  have hhalf : (-0.5 : Float).isFinite = true := by decide
  have htwo : (2 : Float).isFinite = true := by decide
  have h : Printable (.choice (.compare .lt (.var "x") (.num (-0.5))) (.call "sin" [.num 2])
      (.signed .minus (.var "x"))) :=
    ⟨"x", .choice (.compare hx (.num hhalf)) (.call hsin (.num htwo)) (.signed hx)⟩
  have hrender : Expr.render (.choice (.compare .lt (.var "x") (.num (-0.5)))
      (.call "sin" [.num 2]) (.signed .minus (.var "x"))) = "(x < (-0.5)) ? sin(2) : (-x)" := by
    decide
  have hparse := (parse_render h (by decide)).1
  rw [hrender] at hparse
  rw [hparse]
  rfl

/-- **A tree that was read reads back when it is printed, just if all its numbers are finite.** -/
theorem parse_render_iff (h : parse source = .ok t) :
    parse t.render = .ok t ↔ ∀ v ∈ t.nums, v.isFinite = true := by
  obtain ⟨x, hshape⟩ := exists_shaped_of_parse h
  obtain ⟨-, -, -, -, -, hle⟩ := parse_eq_ok_iff.1 h
  -- no number of a tree that was read is negative
  have hself : t.desugar = t := desugar_eq_self fun v hv => hshape.of_mem_nums hv
  constructor
  · intro hagain
    exact isFinite_of_parse_render (fun _ hn => hn) (fun _ hn => hn) hshape hagain
  · intro hfinite
    have hparse := parse_render_of_shaped (fun _ hn => hn) (fun _ hn => hn) hshape hfinite
      (by rwa [hself])
    rwa [hself] at hparse

/-- The formula `2 * x` reads back when it is printed. -/
theorem parse_render_product :
    parse (arith .mul (num 2) (var "x")).render = .ok (arith .mul (num 2) (var "x")) := by
  have hparse : parse "2 * x" = .ok (arith .mul (num 2) (var "x")) :=
    parse_eq_ok_iff.2 ⟨[⟨.number, "2", 0⟩, ⟨.arith .mul, "*", 2⟩, ⟨.var, "x", 4⟩],
      [⟨.number, "2", 0⟩, ⟨.var, "x", 4⟩, ⟨.arith .mul, "*", 2⟩], by cbv, rfl,
      .arith (t := ⟨.arith .mul, "*", 2⟩) rfl (.number rfl (by decide)) (.var rfl), by decide⟩
  refine (parse_render_iff hparse).2 ?_
  simp only [nums, List.forall_mem_append, List.forall_mem_singleton]
  exact ⟨by decide, by simp⟩

/-- The digits of `10 ^ 309` read as infinity, which does not read back when it is printed. -/
theorem parse_render_infinity :
    parse (String.ofList ('1' :: List.replicate 309 '0')) = .ok (num (1.0 / 0.0)) ∧
      parse (num (1.0 / 0.0)).render ≠ .ok (num (1.0 / 0.0)) := by
  have htoken : Token.IsToken (String.ofList ('1' :: List.replicate 309 '0')) .number :=
    Token.isToken_of_digits (by decide) fun d hd => by
      rw [(List.mem_replicate.1 hd).2]
      rfl
  have hread : Token.read (String.ofList ('1' :: List.replicate 309 '0')) =
      .ok [⟨.number, String.ofList ('1' :: List.replicate 309 '0'), 0⟩] := by
    have hreads : Token.Reads none 0 (_ ++ []) [⟨.number, _, 0⟩] :=
      .piece htoken Token.stops_nil (Token.track_of_ne_var (by simp)) .nil
    rw [List.append_nil] at hreads
    exact hreads.readFrom
  have hvalue : Number.literal? (String.ofList ('1' :: List.replicate 309 '0')) =
      some (1.0 / 0.0) := by
    rw [Number.literal?_of_isDigit (by decide)]
    decide +kernel
  have hparse : parse (String.ofList ('1' :: List.replicate 309 '0')) = .ok (num (1.0 / 0.0)) :=
    parse_eq_ok_iff.2 ⟨_, _, hread, rfl, .number rfl hvalue, by decide⟩
  refine ⟨hparse, ?_⟩
  intro hagain
  obtain ⟨x, hshape⟩ := exists_shaped_of_parse hparse
  have hfinite := isFinite_of_parse_render (fun _ hn => hn) (fun _ hn => hn) hshape hagain
    (1.0 / 0.0) List.mem_cons_self
  revert hfinite
  decide

end Expr

end Formula
