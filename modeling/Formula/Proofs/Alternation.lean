import Formula.Proofs.Conditionals
import Formula.Proofs.Inventory
import Formula.Proofs.Parentheses

/-!
# Operands and operators in turn

Neither putting tokens into postfix order nor building the tree looks at what stands next to what:
only the operands are counted.  The count comes out right for some texts that are no formulas, such
as `1 2 +`, which has the tree of `1 + 2`.  What such a text lacks is that operands and operators
alternate.

* `Token.Due` and `Token.Alternates`: an automaton that reads the tokens from left to right and
  keeps in mind whether an operand is due.
* `Grammar.Derives.exists_append`: what can stand in front of a phrase.
* `Grammar.exists_derives_of_alternates`: balanced tokens that alternate are a phrase.
* `Postfix.sentence_of_ofTokens`: so a formula that alternates has the tree that the grammar gives
  it, whether or not it is a conditional.
* **`Expr.parse_alternates_iff`**: among the texts that are read as trees and have balanced
  parentheses, the formulas are those in which operands and operators alternate.
-/

namespace Formula

namespace Token

/-- What is due next in a formula. -/
inductive Due where
  | operand
  /-- The parenthesis before the argument of a function. -/
  | argument
  /-- An operator, or a closing parenthesis, or the end. -/
  | operator
deriving DecidableEq, Repr

/-- What is due after a token; none if the token is not what was due. -/
def Due.next? : Due → Kind → Option Due
  | .operand, .number | .operand, .var => some .operator
  | .operand, .func => some .argument
  | .operand, .lparen | .argument, .lparen => some .operand
  | .operand, .arith .add | .operand, .arith .sub => some .operand
  | .operator, .arith _ | .operator, .compare _ => some .operand
  | .operator, .question | .operator, .colon => some .operand
  | .operator, .rparen => some .operator
  | _, _ => none

/-- What is due after tokens; none if one of them is not what was due. -/
def Due.after? (d : Due) (ts : List Token) : Option Due := ts.foldlM (fun d t => d.next? t.kind) d

/-- Operands and operators alternate, with an operand first and last.  So no two values stand side
by side, no operator lacks an operand on one side, a function comes with the parenthesis before its
argument, there is something between parentheses, and there is no comma. -/
def Alternates (ts : List Token) : Prop := Due.operand.after? ts = some .operator

/-- After an operand, operators and operands alternate. -/
def Continues (ts : List Token) : Prop := Due.operator.after? ts = some .operator

variable {t : Token} {ts us : List Token}

@[simp] theorem Due.after?_nil (d : Due) : d.after? [] = some d := rfl

@[simp] theorem Due.after?_cons (d : Due) (t : Token) (ts : List Token) :
    d.after? (t :: ts) = (d.next? t.kind).bind (·.after? ts) := rfl

@[simp] theorem Due.after?_append (d : Due) (ts us : List Token) :
    d.after? (ts ++ us) = (d.after? ts).bind (·.after? us) := List.foldlM_append

/-- After the name of a function comes the parenthesis before its argument. -/
theorem Due.exists_lparen (h : Due.argument.after? ts = some .operator) :
    ∃ l us, ts = l :: us ∧ l.kind = .lparen ∧ Alternates us := by
  cases ts with
  | nil => cases h
  | cons l us =>
    rw [Due.after?_cons] at h
    cases hl : l.kind with
    | lparen => rw [hl] at h; exact ⟨l, us, rfl, hl, h⟩
    | _ => rw [hl] at h; cases h

/-- Where an operand is due there is one of four things. -/
theorem Alternates.cases (h : Alternates (t :: ts)) :
    (t.kind = .number ∨ t.kind = .var) ∧ Continues ts ∨
      t.kind = .lparen ∧ Alternates ts ∨
      t.kind = .func ∧ (∃ l us, ts = l :: us ∧ l.kind = .lparen ∧ Alternates us) ∨
      ∃ s : Sign, t.kind = .arith s.operator ∧ Alternates ts := by
  rw [Alternates, Due.after?_cons] at h
  cases hk : t.kind with
  | number => rw [hk] at h; exact .inl ⟨.inl rfl, h⟩
  | var => rw [hk] at h; exact .inl ⟨.inr rfl, h⟩
  | lparen => rw [hk] at h; exact .inr (.inl ⟨rfl, h⟩)
  | func => rw [hk] at h; exact .inr (.inr (.inl ⟨rfl, Due.exists_lparen h⟩))
  | arith op =>
    rw [hk] at h
    cases op with
    | add => exact .inr (.inr (.inr ⟨.plus, rfl, h⟩))
    | sub => exact .inr (.inr (.inr ⟨.minus, rfl, h⟩))
    | _ => cases h
  | _ => rw [hk] at h; cases h

/-- Where an operator is due there is one of three things. -/
theorem Continues.cases (h : Continues (t :: ts)) :
    t.kind = .rparen ∧ Continues ts ∨
      ((∃ op, t.kind = .arith op) ∨ ∃ op, t.kind = .compare op) ∧ Alternates ts ∨
      (t.kind = .question ∨ t.kind = .colon) ∧ Alternates ts := by
  rw [Continues, Due.after?_cons] at h
  cases hk : t.kind with
  | rparen => rw [hk] at h; exact .inl ⟨rfl, h⟩
  | arith op => rw [hk] at h; exact .inr (.inl ⟨.inl ⟨op, rfl⟩, h⟩)
  | compare op => rw [hk] at h; exact .inr (.inl ⟨.inr ⟨op, rfl⟩, h⟩)
  | question => rw [hk] at h; exact .inr (.inr ⟨.inl rfl, h⟩)
  | colon => rw [hk] at h; exact .inr (.inr ⟨.inr rfl, h⟩)
  | _ => rw [hk] at h; cases h

/-- The parts of a conditional alternate each by itself. -/
theorem Alternates.of_append_mark (ht : t.kind = .question ∨ t.kind = .colon)
    (h : Alternates (ts ++ t :: us)) : Alternates ts ∧ Alternates us := by
  rw [Alternates, Due.after?_append] at h
  obtain ⟨d, hts, h⟩ := Option.bind_eq_some_iff.1 h
  rw [Due.after?_cons] at h
  -- a mark stands where an operator is due, and an operand is due after it
  cases d with
  | operator => rcases ht with ht | ht <;> rw [ht] at h <;> exact ⟨hts, h⟩
  | _ => rcases ht with ht | ht <;> rw [ht] at h <;> cases h

end Token

namespace Grammar

open Token (Alternates Balanced Closed Continues Due Opened isClosing isOpening)
open Postfix (isMark strength)

variable {level : Level} {ts us vs ps : List Token} {t l r : Token} {e u v : Expr}

/-! ### Phrases are balanced and alternate -/

theorem Derives.countP_eq (h : Derives level ts e) :
    ts.countP isOpening = ts.countP isClosing := by
  induction h with
  | number hk _ | var hk => simp [isOpening, isClosing, hk]
  | parens hl hr _ ih => simp [isOpening, isClosing, hl, hr, ih]
  | call hf hl hr _ ih => simp [isOpening, isClosing, hf, hl, hr, ih]
  | @signed t s _ _ hk _ ih => simp [isOpening, isClosing, hk, ih]
  | arith hk _ _ ihl ihr => simp [isOpening, isClosing, hk, ihl, ihr]
  | compare hk _ _ ihl ihr => simp [isOpening, isClosing, hk, ihl, ihr]
  | tighter _ ih => exact ih

theorem Derives.alternates (h : Derives level ts e) : Alternates ts := by
  unfold Alternates
  induction h with
  | number hk _ | var hk => simp [hk, Due.next?]
  | parens hl hr _ ih => simp [hl, hr, Due.next?, ih]
  | call hf hl hr _ ih => simp [hf, hl, hr, Due.next?, ih]
  | @signed t s _ _ hk _ ih => cases s <;> simp [hk, Sign.operator, Due.next?, ih]
  | arith hk _ _ ihl ihr => simp [hk, Due.next?, ihl, ihr]
  | compare hk _ _ ihl ihr => simp [hk, Due.next?, ihl, ihr]
  | tighter _ ih => exact ih

theorem Sentence.alternates (h : Sentence ts e) : Alternates ts := by
  cases h with
  | plain h => exact h.alternates
  | conditional hq hk hc hy hn =>
    have hc : Due.operand.after? _ = some _ := hc.alternates
    have hy : Due.operand.after? _ = some _ := hy.alternates
    have hn : Due.operand.after? _ = some _ := hn.alternates
    simp [Alternates, hq, hk, hc, hy, hn, Due.next?]

theorem Sentence.balanced (h : Sentence ts e) : Balanced ts := by
  obtain ⟨ps, hps, hpost⟩ := Postfix.ofTokens_sentence h
  refine (Postfix.closed_of_ofTokens hps hpost).balanced ?_
  cases h with
  | plain h => exact h.countP_eq
  | conditional hq hk hc hy hn =>
    simp [isOpening, isClosing, hq, hk, hc.countP_eq, hy.countP_eq, hn.countP_eq]

/-! ### Phrases in front of phrases -/

theorem eq_of_strength_lt_tighter {hi : Level} (hle : strength level ≤ strength hi)
    (hlt : strength hi < strength level.tighter) : level = hi := by
  cases level <;> cases hi <;>
    first | rfl | exact absurd hle (by decide) | exact absurd hlt (by decide)

/-- What can stand in front of the right operands of an operator can stand in front of every phrase
that is as loose as what the operator forms: it goes to the leftmost of the operands. -/
theorem Derives.exists_append (h : Derives level vs v) (hi : Level)
    (hhi : strength hi < strength .signed)
    (hps : ∀ vs v, Derives hi.tighter vs v → ∃ e, Derives hi (ps ++ vs) e)
    (hle : strength level ≤ strength hi) :
    ∃ e, Derives level (ps ++ vs) e := by
  induction h with
  | number | var | parens | call => exact absurd (Int.lt_of_le_of_lt hle hhi) (by decide)
  | signed => exact absurd (Int.lt_of_le_of_lt hle hhi) (by decide)
  | arith hk _ hr ihl _ =>
    obtain ⟨e, hl⟩ := ihl hle
    rw [← List.append_assoc]
    exact ⟨_, .arith hk hl hr⟩
  | compare hk _ hr ihl _ =>
    obtain ⟨e, hl⟩ := ihl hle
    rw [← List.append_assoc]
    exact ⟨_, .compare hk hl hr⟩
  | @tighter level vs v h ih =>
    by_cases htighter : strength level.tighter ≤ strength hi
    · obtain ⟨e, h⟩ := ih htighter
      exact ⟨e, .tighter h⟩
    · obtain rfl := eq_of_strength_lt_tighter hle (Int.not_le.1 htighter)
      exact hps _ _ h

/-- A sign can stand in front of a comparison. -/
theorem exists_derives_sign {s : Sign} (ht : t.kind = .arith s.operator)
    (h : Derives .comparison vs v) : ∃ e, Derives .comparison (t :: vs) e := by
  have hsign (vs : List Token) (v : Expr) (h : Derives .signed vs v) :
      ∃ e, Derives .power ([t] ++ vs) e := ⟨_, .tighter (.signed ht h)⟩
  exact h.exists_append .power (by decide) hsign (by decide)

/-- An operand with an operator can stand in front of a comparison. -/
theorem exists_derives_operator (hu : Derives .primary us u)
    (ht : (∃ op, t.kind = .arith op) ∨ ∃ op, t.kind = .compare op)
    (h : Derives .comparison vs v) : ∃ e, Derives .comparison (us ++ t :: vs) e := by
  rw [List.append_cons]
  rcases ht with ⟨op, ht⟩ | ⟨op, ht⟩
  · refine h.exists_append (levelOf op) (by cases op <;> decide) ?_ (by cases op <;> decide)
    intro vs v h
    rw [← List.append_cons]
    exact ⟨_, .arith ht hu.of_primary h⟩
  · refine h.exists_append .comparison (by decide) ?_ (by decide)
    intro vs v h
    rw [← List.append_cons]
    exact ⟨_, .compare ht hu.of_primary h⟩

/-! ### Balanced tokens that alternate -/

/-- The tokens begin with a comparison, which goes up to their end or to a closing parenthesis. -/
def Begins (ts : List Token) : Prop :=
  ∃ us vs e, ts = us ++ vs ∧ Derives .comparison us e ∧
    (vs = [] ∨ ∃ r ws, vs = r :: ws ∧ r.kind = .rparen ∧ Continues ws)

/-- The token can be part of a phrase: it is no mark, and if it is a number it has a value. -/
structure Plain (t : Token) : Prop where
  not_isMark : isMark t = false
  literal : t.kind = .number → ∃ v, Number.literal? t.text = some v

/-- An opening parenthesis in front of a comparison is closed at the end of it. -/
theorem exists_closing (hl : l.kind = .lparen) (hclosed : Closed (l :: ts)) (h : Begins ts) :
    ∃ us r ws e, ts = us ++ r :: ws ∧ r.kind = .rparen ∧ Derives .comparison us e ∧
      Continues ws := by
  obtain ⟨us, vs, e, rfl, hus, rfl | ⟨r, ws, rfl, hr, hws⟩⟩ := h
  · have hle := hclosed _ (List.suffix_refl _)
    simp [isOpening, isClosing, hl, hus.countP_eq] at hle
  · exact ⟨us, r, ws, e, rfl, hr, hus, hws⟩

/-- An operand is a comparison by itself, or goes on with an operator and a comparison. -/
theorem begins_of_operand (hu : Derives .primary us u) (hvs : Continues vs)
    (hplain : ∀ t ∈ vs, Plain t) (ih : ∀ ws, ws <:+ vs → Alternates ws → Begins ws) :
    Begins (us ++ vs) := by
  cases vs with
  | nil => exact ⟨us, [], u, rfl, hu.of_primary, .inl rfl⟩
  | cons t ws =>
    rcases hvs.cases with ⟨ht, hws⟩ | ⟨ht, hws⟩ | ⟨ht, -⟩
    · exact ⟨us, t :: ws, u, rfl, hu.of_primary, .inr ⟨t, ws, rfl, ht, hws⟩⟩
    · obtain ⟨us', vs', v, rfl, hv, hend⟩ := ih ws (List.suffix_cons ..) hws
      obtain ⟨e, he⟩ := exists_derives_operator hu ht hv
      exact ⟨us ++ t :: us', vs', e, by simp, he, hend⟩
    · have hmark := Postfix.isMark_eq_false_iff.1 (hplain t List.mem_cons_self).not_isMark
      rcases ht with ht | ht
      · exact absurd ht hmark.1
      · exact absurd ht hmark.2.1

/-- Tokens that alternate begin with a comparison if the parentheses among them are closed.  The
induction is about all suffixes, since what follows the argument of a function or the inside of
parentheses may be far behind. -/
theorem begins_of_alternates (hclosed : Closed ts) (hplain : ∀ t ∈ ts, Plain t) :
    ∀ us, us <:+ ts → Alternates us → Begins us := by
  induction ts with
  | nil =>
    intro us hus h
    rw [List.suffix_nil.1 hus] at h
    cases h
  | cons t ts ih =>
    obtain ⟨ht, hts⟩ := List.forall_mem_cons.1 hplain
    have ih := ih (hclosed.of_suffix (List.suffix_cons ..)) hts
    have hoperand {us vs : List Token} {u : Expr} (hvs : vs <:+ ts) (hu : Derives .primary us u)
        (h : Continues vs) : Begins (us ++ vs) :=
      begins_of_operand hu h (fun t ht => hts t (hvs.subset ht))
        fun ws hws => ih ws (hws.trans hvs)
    intro us hus h
    rcases List.suffix_cons_iff.1 hus with rfl | hus
    · rcases h.cases with ⟨hk | hk, h⟩ | ⟨hk, h⟩ | ⟨hk, l, us, rfl, hl, h⟩ | ⟨s, hk, h⟩
      · obtain ⟨v, hv⟩ := ht.literal hk
        exact hoperand (List.suffix_refl _) (.number hk hv) h
      · exact hoperand (List.suffix_refl _) (.var hk) h
      · obtain ⟨us, r, ws, e, rfl, hr, hus, hws⟩ :=
          exists_closing hk hclosed (ih ts (List.suffix_refl _) h)
        have hparens := hoperand ((List.suffix_cons r ws).trans (List.suffix_append ..))
          (.parens hk hr hus) hws
        simpa using hparens
      · obtain ⟨us, r, ws, e, rfl, hr, hus, hws⟩ :=
          exists_closing hl (hclosed.of_suffix (List.suffix_cons ..))
            (ih us (List.suffix_cons ..) h)
        have hcall := hoperand (((List.suffix_cons r ws).trans (List.suffix_append us _)).trans
          (List.suffix_cons l _)) (.call hk hl hr hus) hws
        simpa using hcall
      · obtain ⟨us, vs, v, rfl, hv, hend⟩ := ih ts (List.suffix_refl _) h
        obtain ⟨e, he⟩ := exists_derives_sign hk hv
        exact ⟨t :: us, vs, e, rfl, he, hend⟩
    · exact ih us hus h

/-- **Balanced tokens in which operands and operators alternate are a comparison**, if there are no
marks of a conditional among them and the numbers have values. -/
theorem exists_derives_of_alternates (hbalanced : Balanced ts) (hplain : ∀ t ∈ ts, Plain t)
    (h : Alternates ts) : ∃ e, Derives .comparison ts e := by
  obtain ⟨hopened, hclosed⟩ := Token.balanced_iff.1 hbalanced
  obtain ⟨us, vs, e, rfl, hus, rfl | ⟨r, ws, rfl, hr, -⟩⟩ :=
    begins_of_alternates hclosed hplain ts (List.suffix_refl _) h
  · rw [List.append_nil]
    exact ⟨e, hus⟩
  · -- the parenthesis at the end of the comparison has not been opened
    have hle := hopened (us ++ [r]) ⟨ws, by simp⟩
    simp [isOpening, isClosing, hr, hus.countP_eq] at hle

end Grammar

/-! ### From postfix order back to the formula -/

namespace Token

variable {due : Bool} {q : Token} {ts us vs : List Token}

/-- The signs on both sides of a mark of a conditional are marked by themselves. -/
theorem exists_of_markSignsFrom_eq (hq : q.kind = .question ∨ q.kind = .colon)
    (h : markSignsFrom due ts = us ++ q :: vs) :
    ∃ us' vs', ts = us' ++ q :: vs' ∧ us = markSignsFrom due us' ∧ vs = markSigns vs' := by
  induction us generalizing due ts with
  | nil =>
    cases ts with
    | nil => cases h
    | cons t ts =>
      obtain ⟨ht, hts⟩ := List.cons.inj h
      rcases mark_cases due t with hmark | ⟨-, s, hs⟩
      · rw [hmark] at ht hts
        subst ht
        have hdue : t.kind.awaitsOperand = true := by rcases hq with hq | hq <;> rw [hq] <;> rfl
        rw [hdue] at hts
        exact ⟨[], ts, rfl, rfl, hts.symm⟩
      · rw [ht] at hs
        rcases hq with hq | hq <;> rw [hq] at hs <;> cases hs
  | cons u us ih =>
    cases ts with
    | nil => cases h
    | cons t ts =>
      obtain ⟨rfl, hts⟩ := List.cons.inj h
      obtain ⟨us', vs', rfl, rfl, rfl⟩ := ih hts
      exact ⟨t :: us', vs', rfl, rfl, rfl⟩

end Token

namespace Postfix

open Grammar
open Token (Alternates Opened isOperand node?)

variable {ts ps : List Token} {e : Expr}

theorem isMark_of_markSigns (h : ∀ t ∈ Token.markSigns ts, isMark t = false) :
    ∀ t ∈ ts, isMark t = false := by
  have hcount : (Token.markSigns ts).countP isMark = ts.countP isMark :=
    Token.countP_markSignsFrom (Token.apply_mark fun ht hu => by simp [isMark, ht, hu]) true ts
  have hzero : (Token.markSigns ts).countP isMark = 0 := by simpa [List.countP_eq_zero] using h
  simpa [List.countP_eq_zero] using hcount.symm.trans hzero

/-- Where a tree is built, the numbers have values. -/
theorem exists_literal_of_ofTokens (h : ofTokens ts = .ok ps) (hpost : Postorder ps e) :
    ∀ t ∈ ts, t.kind = .number → ∃ v, Number.literal? t.text = some v := by
  intro t ht hk
  have hmem : t.node? ∈ (ts.filter isOperand).map node? :=
    List.mem_map_of_mem (List.mem_filter.2 ⟨ht, by simp [isOperand, hk]⟩)
  rw [map_leaves_of_ofTokens h hpost] at hmem
  obtain ⟨m, -, hm⟩ := List.mem_map.1 hmem
  simp only [node?, hk] at hm
  obtain ⟨v, hv, -⟩ := Option.map_eq_some_iff.1 hm.symm
  exact ⟨v, hv⟩

/-- A plain formula that alternates is a phrase, and the tree that postfix order lists is its
tree. -/
theorem derives_of_reorder (h : reorder (Token.markSigns ts) = .ok ps) (hpost : Postorder ps e)
    (hopened : Opened ts) (halternates : Alternates ts) : Derives .comparison ts e := by
  have hmark := isMark_of_markSigns (reorder_eq_ok_iff.1 h).1
  have hps : ofTokens ts = .ok ps := (ofTokens_of_isMark hmark).trans h
  have hbalanced := Token.balanced_iff.2 ⟨hopened, closed_of_ofTokens hps hpost⟩
  have hliteral := exists_literal_of_ofTokens hps hpost
  obtain ⟨e', he'⟩ := exists_derives_of_alternates hbalanced
    (fun t ht => ⟨hmark t ht, hliteral t ht⟩) halternates
  obtain ⟨ps', hps', hpost'⟩ := reorder_derives he'
  obtain rfl : ps' = ps := by simpa [h] using hps'.symm
  rwa [hpost.unique hpost']

/-- A formula that alternates is a sentence, and the tree that postfix order lists is its tree. -/
theorem sentence_of_ofTokens (h : ofTokens ts = .ok ps) (hpost : Postorder ps e)
    (hopened : Opened ts) (halternates : Alternates ts) : Sentence ts e := by
  obtain h | ⟨cs, q, ys, k, ns, hts, hq, hk, pc, py, pn, hc, hy, hn, rfl⟩ := ofTokens_cases h
  · exact .plain (derives_of_reorder h hpost hopened halternates)
  · obtain ⟨hc, hvaluec⟩ := part_eq_ok_iff.1 hc
    obtain ⟨hy, hvaluey⟩ := part_eq_ok_iff.1 hy
    obtain ⟨hn, hvaluen⟩ := part_eq_ok_iff.1 hn
    obtain ⟨c, y, n, rfl, hpostc, hposty, hpostn⟩ :=
      hpost.choice_parts rfl hvaluec hvaluey hvaluen
    obtain ⟨cs, rest, rfl, rfl, hrest⟩ := Token.exists_of_markSignsFrom_eq (.inl hq) hts
    obtain ⟨ys, ns, rfl, rfl, rfl⟩ := Token.exists_of_markSignsFrom_eq (.inr hk) hrest.symm
    obtain ⟨haltc, halternates⟩ := halternates.of_append_mark (.inl hq)
    obtain ⟨halty, haltn⟩ := halternates.of_append_mark (.inr hk)
    have hc := derives_of_reorder hc hpostc (hopened.of_prefix (List.prefix_append ..)) haltc
    have hopened := hopened.of_append_mark (.inl hq) hc.countP_eq
    have hy := derives_of_reorder hy hposty (hopened.of_prefix (List.prefix_append ..)) halty
    have hopened := hopened.of_append_mark (.inr hk) hy.countP_eq
    have hn := derives_of_reorder hn hpostn hopened haltn
    exact .conditional hq hk hc hy hn

end Postfix

namespace Expr

open Grammar (Sentence)
open Token (Alternates Balanced)

variable {source : String} {ts : List Token} {e : Expr}

/-- **What is read is a formula just if operands and operators alternate.**  A text is read as a
tree, has balanced parentheses, and has operands and operators in turn just if its tokens are a
formula that denotes the tree and the tree is not too high. -/
theorem parse_alternates_iff (hread : Token.read source = .ok ts) :
    parse source = .ok e ∧ Balanced ts ∧ Alternates ts ↔ Sentence ts e ∧ e.height ≤ maxHeight := by
  rw [parse_eq_ok_iff_of_read hread]
  constructor
  · rintro ⟨⟨ps, hps, hpost, hle⟩, hbalanced, halternates⟩
    exact ⟨Postfix.sentence_of_ofTokens hps hpost hbalanced.1 halternates, hle⟩
  · rintro ⟨h, hle⟩
    obtain ⟨ps, hps, hpost⟩ := Postfix.ofTokens_sentence h
    exact ⟨⟨ps, hps, hpost, hle⟩, h.balanced, h.alternates⟩

/-- The formula `-(x + 1) * sin(x)`. -/
theorem parse_alternates_product :
    ∃ ts, Token.read "-(x + 1) * sin(x)" = .ok ts ∧
      Sentence ts (.arith .mul (.signed .minus (.arith .add (.var "x") (.num 1)))
        (.call "sin" [.var "x"])) := by
  have hread : Token.read "-(x + 1) * sin(x)" = .ok [⟨.arith .sub, "-", 0⟩, ⟨.lparen, "(", 1⟩,
      ⟨.var, "x", 2⟩, ⟨.arith .add, "+", 4⟩, ⟨.number, "1", 6⟩, ⟨.rparen, ")", 7⟩,
      ⟨.arith .mul, "*", 9⟩, ⟨.func, "sin", 11⟩, ⟨.lparen, "(", 14⟩, ⟨.var, "x", 15⟩,
      ⟨.rparen, ")", 16⟩] := by cbv
  exact ⟨_, hread, ((parse_alternates_iff hread).1
    ⟨(parse_eq_ok_iff_of_read hread).2 ⟨_, rfl, ofPostfix_eq_ok_iff.1 rfl⟩,
      ⟨Token.opened_of_surplus rfl, rfl⟩, rfl⟩).1⟩

/-- The tokens of `1 2 +` are no formula, for `2` stands where an operator is due, but the text is
read as `1 + 2`. -/
theorem parse_juxtaposed :
    ∃ ts, Token.read "1 2 +" = .ok ts ∧ Balanced ts ∧
      parse "1 2 +" = .ok (.arith .add (.num 1) (.num 2)) ∧ ∀ e, ¬ Sentence ts e := by
  have hread : Token.read "1 2 +" = .ok [⟨.number, "1", 0⟩, ⟨.number, "2", 2⟩,
      ⟨.arith .add, "+", 4⟩] := by cbv
  refine ⟨_, hread, ⟨Token.opened_of_surplus rfl, rfl⟩,
    (parse_eq_ok_iff_of_read hread).2 ⟨_, rfl, ofPostfix_eq_ok_iff.1 rfl⟩, ?_⟩
  intro e h
  cases h.alternates

end Expr

end Formula
