import Formula.Proofs.Conservation
import Formula.Proofs.Parsed

/-!
# The inventory of a formula

The tree of a formula has the nodes that its tokens stand for, and no others.

* `Postfix.Rearranged` says that postfix order keeps the operands in order and the operators up to
  order, and `Postfix.exists_rearranged_of_ofTokens` that this holds of every formula, well-formed
  or not.
* **`Expr.parse_inventory`**: the leaves of a tree are the operands of its text from left to right,
  its other nodes are the operators and the conditional in some order, and its size is the number of
  the tokens that are no punctuation.
-/

namespace Formula

namespace Token

/-- The question mark of a conditional. -/
def isQuestion (t : Token) : Bool := t.kind = .question

end Token

namespace Postfix

open Token (isOperand isOperator isQuestion node?)

variable {ts us ps qs : List Token} {t : Token} {e : Expr}

/-- In postfix order a formula has its operands in their order and its operators in some order. -/
structure Rearranged (ts ps : List Token) : Prop where
  operands : ps.filter isOperand = ts.filter isOperand
  operators : (ps.filter isOperator).Perm (ts.filter isOperator)
  not_choice : ∀ t ∈ ps, t.kind ≠ .choice

theorem rearranged_of_reorder (h : reorder ts = .ok ps) : Rearranged ts ps := by
  obtain ⟨-, rfl⟩ := reorder_eq_ok_iff.1 h
  refine ⟨filter_isOperand_reorderFrom (by simp), ?_, ne_choice_of_reorder h⟩
  rw [← Token.filter_isOperator_survivors ts]
  exact (reorder_perm ts).filter _

theorem Rearranged.append (h : Rearranged ts ps) (h' : Rearranged us qs) :
    Rearranged (ts ++ us) (ps ++ qs) where
  operands := by rw [List.filter_append, List.filter_append, h.operands, h'.operands]
  operators := by
    rw [List.filter_append, List.filter_append]
    exact h.operators.append h'.operators
  not_choice := List.forall_mem_append.2 ⟨h.not_choice, h'.not_choice⟩

/-- The marks of a conditional are neither operands nor operators. -/
theorem Rearranged.cons (h : Rearranged ts ps) (ht : t.kind = .question ∨ t.kind = .colon) :
    Rearranged (t :: ts) ps where
  operands := by
    rw [h.operands, List.filter_cons_of_neg]
    rcases ht with ht | ht <;> simp [isOperand, ht]
  operators := by
    rw [List.filter_cons_of_neg]
    · exact h.operators
    · rcases ht with ht | ht <;> simp [isOperator, ht]
  not_choice := h.not_choice

theorem countP_isQuestion_of_reorder (h : reorder ts = .ok ps) : ts.countP isQuestion = 0 := by
  rw [List.countP_eq_zero]
  intro t ht
  have hmark := isMark_eq_false_iff.1 ((reorder_eq_ok_iff.1 h).1 t ht)
  simpa [isQuestion] using hmark.1

/-- Marking signs changes no question mark. -/
theorem countP_isQuestion_markSigns (ts : List Token) :
    (Token.markSigns ts).countP isQuestion = ts.countP isQuestion :=
  Token.countP_markSignsFrom (Token.apply_mark fun ht hu => by simp [isQuestion, ht, hu]) true ts

/-- A formula is rearranged, and one mark is put after it if it has a question mark. -/
theorem exists_rearranged_of_ofTokens (h : ofTokens ts = .ok ps) :
    ∃ body, Rearranged (Token.markSigns ts) body ∧
      (ps = body ∧ ts.countP isQuestion = 0 ∨
        ∃ pos, ps = body ++ [Token.choiceAt pos] ∧ ts.countP isQuestion = 1) := by
  rw [← countP_isQuestion_markSigns]
  obtain h | ⟨cs, q, ys, k, ns, hts, hq, hk, pc, py, pn, hc, hy, hn, rfl⟩ := ofTokens_cases h
  · exact ⟨ps, rearranged_of_reorder h, .inl ⟨rfl, countP_isQuestion_of_reorder h⟩⟩
  · have hc := (part_eq_ok_iff.1 hc).1
    have hy := (part_eq_ok_iff.1 hy).1
    have hn := (part_eq_ok_iff.1 hn).1
    rw [hts]
    refine ⟨pc ++ (py ++ pn), ?_, .inr ⟨q.pos, by rw [List.append_assoc pc], ?_⟩⟩
    · have hanswers := (rearranged_of_reorder hy).append ((rearranged_of_reorder hn).cons (.inr hk))
      exact (rearranged_of_reorder hc).append (hanswers.cons (.inl hq))
    · simp [countP_isQuestion_of_reorder hc, countP_isQuestion_of_reorder hy,
        countP_isQuestion_of_reorder hn, isQuestion, hq, hk]

/-- The leaves of the tree are the operands of the formula. -/
theorem map_leaves_of_ofTokens (h : ofTokens ts = .ok ps) (hpost : Postorder ps e) :
    (ts.filter isOperand).map node? = e.leaves.map some := by
  obtain ⟨body, hbody, hps⟩ := exists_rearranged_of_ofTokens h
  have hoperands : ps.filter isOperand = ts.filter isOperand := by
    rw [← Token.filter_isOperand_markSignsFrom true ts, ← Token.markSigns, ← hbody.operands]
    rcases hps with ⟨rfl, -⟩ | ⟨pos, rfl, -⟩
    · rfl
    · rw [List.filter_append, List.filter_cons_of_neg (by simp [isOperand, Token.choiceAt]),
        List.filter_nil, List.append_nil]
  rw [← hoperands, hpost.map_leaves]

/-- The other nodes of the tree are the operators of the formula, and one for its question mark. -/
theorem map_operations_of_ofTokens (h : ofTokens ts = .ok ps) (hpost : Postorder ps e) :
    (e.operations.map some).Perm (((Token.markSigns ts).filter isOperator).map node? ++
      List.replicate (ts.countP isQuestion) (some .choice)) := by
  obtain ⟨body, hbody, hps⟩ := exists_rearranged_of_ofTokens h
  have hfilter : body.filter (fun t => t.isOperator || t.kind = .choice) =
      body.filter isOperator :=
    List.filter_congr fun t ht => by simp [hbody.not_choice t ht]
  rw [← hpost.map_operations]
  rcases hps with ⟨rfl, hquestion⟩ | ⟨pos, rfl, hquestion⟩
  · rw [hfilter, hquestion, List.replicate_zero, List.append_nil]
    exact hbody.operators.map _
  · rw [List.filter_append, hfilter, hquestion, List.map_append]
    exact (hbody.operators.map _).append_right _

theorem countP_isQuestion_le (h : ofTokens ts = .ok ps) : ts.countP isQuestion ≤ 1 := by
  obtain ⟨body, -, hps⟩ := exists_rearranged_of_ofTokens h
  rcases hps with ⟨-, hquestion⟩ | ⟨pos, -, hquestion⟩ <;> omega

end Postfix

namespace Token

/-- The tokens that a lexer makes are operands, operators, question marks or punctuation. -/
theorem countP_not_isPunctuation {ts : List Token} (h : ∀ t ∈ ts, t.kind ≠ .choice) :
    ts.countP (!·.isPunctuation) =
      ts.countP isOperand + (ts.countP isOperator + ts.countP isQuestion) := by
  induction ts with
  | nil => rfl
  | cons t ts ih =>
    obtain ⟨ht, hts⟩ := List.forall_mem_cons.1 h
    have hone : (if !t.isPunctuation then 1 else 0) = (if t.isOperand then 1 else 0) +
        ((if t.isOperator then 1 else 0) + if t.isQuestion then 1 else 0) := by
      obtain ⟨kind, text, pos⟩ := t
      cases kind with
      | choice => exact absurd rfl ht
      | _ => rfl
    simp only [List.countP_cons, ih hts, hone]
    omega

end Token

namespace Expr

variable {source : String} {e : Expr}

/-- **Parsing loses, doubles and reorders nothing.**  The leaves of the tree are, from left to
right, the numbers and variables of the text; its other nodes are the operators, signs, comparisons
and functions of the text, and one conditional if the text has a question mark; so its size is the
number of tokens that are no punctuation. -/
theorem parse_inventory (h : parse source = .ok e) :
    ∃ ts, Token.read source = .ok ts ∧
      (ts.filter Token.isOperand).map Token.node? = e.leaves.map some ∧
      (e.operations.map some).Perm (((Token.markSigns ts).filter Token.isOperator).map Token.node? ++
        if '?' ∈ source.toList then [some .choice] else []) ∧
      e.size = ts.countP (!·.isPunctuation) := by
  obtain ⟨ts, ps, hread, hps, hpost, -⟩ := parse_eq_ok_iff.1 h
  have hreads := Token.reads_of_readFrom hread
  have hleaves := Postfix.map_leaves_of_ofTokens hps hpost
  have hoperations := Postfix.map_operations_of_ofTokens hps hpost
  refine ⟨ts, hread, hleaves, ?_, ?_⟩
  · have hchoice : List.replicate (ts.countP Token.isQuestion) (some Node.choice) =
        if '?' ∈ source.toList then [some .choice] else [] := by
      have hle := Postfix.countP_isQuestion_le hps
      have hmem : '?' ∈ source.toList ↔ 0 < ts.countP Token.isQuestion := by
        rw [hreads.question_mem_iff, List.countP_pos_iff]
        simp [Token.isQuestion]
      by_cases hpos : 0 < ts.countP Token.isQuestion
      · rw [if_pos (hmem.2 hpos), show ts.countP Token.isQuestion = 1 by omega]
        rfl
      · rw [if_neg (mt hmem.1 hpos), show ts.countP Token.isQuestion = 0 by omega]
        rfl
    rwa [hchoice] at hoperations
  · have hleaves := congrArg List.length hleaves
    have hoperations := hoperations.length_eq
    simp only [List.length_map, List.length_append, List.length_replicate,
      ← List.countP_eq_length_filter, Token.markSigns,
      Token.countP_markSignsFrom Token.isOperator_mark] at hleaves hoperations
    rw [size_eq_add, ← hleaves, hoperations, Token.countP_not_isPunctuation]
    exact fun t ht => (hreads.isLexeme t ht).ne_choice

/-- The inventory of `-x ? 2 : sin(x - 1)`, in which one `-` is a sign and one an operator. -/
theorem parse_inventory_conditional :
    ∃ ts e, Token.read "-x ? 2 : sin(x - 1)" = .ok ts ∧ parse "-x ? 2 : sin(x - 1)" = .ok e ∧
      e.leaves = [.var "x", .num 2, .var "x", .num 1] ∧
      (ts.filter Token.isOperand).map Token.node? = e.leaves.map some ∧
      e.operations = [.signed .minus, .arith .sub, .call "sin" 1, .choice] ∧
      (e.operations.map some).Perm
        (((Token.markSigns ts).filter Token.isOperator).map Token.node? ++ [some .choice]) ∧
      e.size = 8 ∧ e.size = ts.countP (!·.isPunctuation) := by
  have hparse : parse "-x ? 2 : sin(x - 1)" = .ok (.choice (.signed .minus (.var "x")) (.num 2)
      (.call "sin" [.arith .sub (.var "x") (.num 1)])) := by
    exact parse_eq_ok_iff.2 ⟨_, _, by cbv, rfl, ofPostfix_eq_ok_iff.1 rfl⟩
  obtain ⟨ts, hread, hleaves, hoperations, hsize⟩ := parse_inventory hparse
  exact ⟨ts, _, hread, hparse, rfl, hleaves, rfl, hoperations, rfl, hsize⟩

end Expr

end Formula
