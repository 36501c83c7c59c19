import Formula.Proofs.Marks

/-!
# Signs that have been marked

Whether a `+` or `-` is a sign is settled by the token before it, and the answer is the same before
and after that token has been marked: an operator that turns out to be a sign still has its operand
to come.  So marking goes on in the same way after any token, and marking what has been marked
changes nothing.

* `Token.Kind.Separates` lists the tokens after which an operand is due.
* `Token.markSignsFrom_append_singleton`: marking starts afresh after each token.
* **`Token.markSigns_stable`**: signs may be marked twice, on both sides of a cut, and before or
  after a conditional is cut into its parts.
-/

namespace Formula

namespace Token

/-- The kinds of the tokens that end a stretch of tokens: what comes after them starts with an
operand. -/
inductive Kind.Separates : Kind → Prop
  | lparen : Separates .lparen
  | comma : Separates .comma
  | arith {op : Arith} : Separates (.arith op)
  | sign {s : Sign} : Separates (.sign s)
  | compare {op : Comparison} : Separates (.compare op)
  | question : Separates .question
  | colon : Separates .colon

theorem Kind.Separates.awaitsOperand {k : Kind} (h : k.Separates) : k.awaitsOperand = true := by
  cases h <;> rfl

/-- An operator awaits its operand whether or not it is a sign. -/
theorem awaitsOperand_mark (due : Bool) (t : Token) :
    (t.mark due).kind.awaitsOperand = t.kind.awaitsOperand :=
  apply_mark (f := fun t => t.kind.awaitsOperand)
    (fun ht hu => by simp [Kind.awaitsOperand, ht, hu]) due t

/-- After a token it does not matter what came before it. -/
theorem markSignsFrom_append_singleton (due : Bool) (ts us : List Token) (t : Token) :
    markSignsFrom due (ts ++ [t] ++ us) =
      markSignsFrom due (ts ++ [t]) ++ markSignsFrom t.kind.awaitsOperand us := by
  induction ts generalizing due with
  | nil => simp only [List.nil_append, List.cons_append, markSignsFrom, awaitsOperand_mark]
  | cons u ts ih => simp only [List.cons_append, markSignsFrom, ih]

/-- Signs that have been marked are not marked again. -/
theorem markSignsFrom_markSignsFrom (due : Bool) (ts : List Token) :
    markSignsFrom due (markSignsFrom due ts) = markSignsFrom due ts := by
  induction ts generalizing due with
  | nil => rfl
  | cons t ts ih => simp only [markSignsFrom, mark_mark, ih]

theorem markSigns_markSigns (ts : List Token) : markSigns (markSigns ts) = markSigns ts :=
  markSignsFrom_markSignsFrom true ts

/-- **Marking signs is stable.**  It changes nothing the second time, so that it makes no difference
to the postfix order whether it has been done before.  After a token that awaits an operand it
starts afresh.  The parts of a conditional get the same signs each by itself as within the whole,
and an offence of its marks is found either way. -/
theorem markSigns_stable (ts : List Token) :
    markSigns (markSigns ts) = markSigns ts ∧
      Postfix.ofTokens (markSigns ts) = Postfix.ofTokens ts ∧
      (∀ us s vs, s.kind.Separates →
        markSigns (us ++ [s] ++ vs) = markSigns (us ++ [s]) ++ markSigns vs) ∧
      split (markSigns ts) = (split ts).map Parts.markSigns := by
  refine ⟨markSigns_markSigns ts, ?_, ?_, ?_⟩
  · rw [Postfix.ofTokens, Postfix.ofTokens, markSigns_markSigns]
  · intro us s vs hs
    rw [markSigns, markSignsFrom_append_singleton, hs.awaitsOperand]
  · obtain ⟨parts, hparts⟩ := exists_splits ts
    rw [hparts.markSigns.split_eq, hparts.split_eq]

/-- In `2 * - - x` both signs are marked, by themselves or after `2 *`. -/
theorem markSigns_stable_product :
    Kind.Separates (.arith .mul) ∧
      markSigns [⟨.number, "2", 0⟩, ⟨.arith .mul, "*", 1⟩, ⟨.arith .sub, "-", 2⟩,
          ⟨.arith .sub, "-", 3⟩, ⟨.var, "x", 4⟩] =
        [⟨.number, "2", 0⟩, ⟨.arith .mul, "*", 1⟩] ++
          markSigns [⟨.arith .sub, "-", 2⟩, ⟨.arith .sub, "-", 3⟩, ⟨.var, "x", 4⟩] ∧
      markSigns [⟨.arith .sub, "-", 2⟩, ⟨.arith .sub, "-", 3⟩, ⟨.var, "x", 4⟩] =
        [⟨.sign .minus, "u-", 2⟩, ⟨.sign .minus, "u-", 3⟩, ⟨.var, "x", 4⟩] :=
  ⟨.arith, (markSigns_stable [⟨.number, "2", 0⟩]).2.2.1 [⟨.number, "2", 0⟩] ⟨.arith .mul, "*", 1⟩
    [⟨.arith .sub, "-", 2⟩, ⟨.arith .sub, "-", 3⟩, ⟨.var, "x", 4⟩] .arith, by decide⟩

end Token

end Formula
