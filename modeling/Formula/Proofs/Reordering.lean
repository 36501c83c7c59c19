import Formula.Proofs.Grammar
import Formula.Proofs.Postorder

/-!
# Putting sentences into postfix order

What the grammar derives is put into the post-order of its tree, and the tree is built.

The invariant ties the stack of waiting operators to a phrase of which the tokens have been read:
some of the nodes of its tree have been written, and the others wait on the stack above whatever
was there before.  Two conditions on the level of the phrase carry it through the six levels.

* `Guards`: what lay on the stack before the phrase does not precede an operator of its level or of
  a tighter one, and does not take a parenthesis for that of a call.
* `Yields`: what waits on the stack after the phrase precedes every operator of its level or of a
  looser one.
* `Reordered` is the invariant, and `exists_reordered` proves it by induction on the derivation.
* `ofTokens_conditional_eq_ok_iff`: a conditional is put into postfix order part by part.
* `ofTokens_sentence`: a formula is put into the post-order of its tree.
* `ofPostfix_ofTokens_sentence`: so its tree is built if it is not too high, and there is no other.
-/

namespace Formula

namespace Grammar

open Token (Kind)

variable {level : Level} {ts : List Token} {e : Expr}

/-- The signs of the tokens after a phrase are told apart as after an operand. -/
theorem Derives.markSigns_append (h : Derives level ts e) (us : List Token) :
    Token.markSigns (ts ++ us) = Token.markSigns ts ++ Token.markSignsFrom false us := by
  obtain ⟨init, last, rfl, hlast⟩ := h.exists_last
  exact Token.markSignsFrom_concat_append hlast true init us

/-- An operator between two operands is no sign, and a sign may follow it. -/
theorem markSignsFrom_operator {t : Token}
    (ht : (∃ op, t.kind = .arith op) ∨ ∃ op, t.kind = .compare op) (us : List Token) :
    Token.markSignsFrom false (t :: us) = t :: Token.markSigns us := by
  rcases ht with ⟨op, ht⟩ | ⟨op, ht⟩ <;>
    simp only [Token.markSignsFrom, Token.markSigns, Token.mark_false, ht, Kind.awaitsOperand]

theorem mark_eq_of_kind {t : Token} (k : Kind) (ht : t.kind = k) (hk : k.asSign? = none)
    (due : Bool) : t.mark due = t :=
  Token.mark_of_asSign?_eq_none (by rw [ht, hk]) due

theorem markSigns_parens {l r : Token} (hl : l.kind = .lparen) (h : Derives level ts e) :
    Token.markSigns (l :: ts ++ [r]) = l :: (Token.markSigns ts ++ [r]) := by
  have hopen : l.mark true = l := mark_eq_of_kind .lparen hl rfl true
  have hinner : Token.markSignsFrom true (ts ++ [r]) = Token.markSigns ts ++ [r] :=
    h.markSigns_append [r]
  simp only [Token.markSigns, List.cons_append, Token.markSignsFrom, hopen, hl, Kind.awaitsOperand,
    hinner]

theorem markSigns_call {f l r : Token} (hf : f.kind = .func) (hl : l.kind = .lparen)
    (h : Derives level ts e) :
    Token.markSigns (f :: l :: ts ++ [r]) = f :: l :: (Token.markSigns ts ++ [r]) := by
  have hfunc : f.mark true = f := mark_eq_of_kind .func hf rfl true
  have hinner : Token.markSignsFrom true (ts ++ [r]) = Token.markSigns ts ++ [r] :=
    h.markSigns_append [r]
  simp only [Token.markSigns, List.cons_append, Token.markSignsFrom, hfunc, hf, hl,
    Token.mark_false, Kind.awaitsOperand, hinner]

/-- The operator at the start of a signed operand is a sign. -/
theorem markSigns_signed {t : Token} {s : Sign} (ht : t.kind = .arith s.operator) :
    ∃ u, u.kind = .sign s ∧ Token.markSigns (t :: ts) = u :: Token.markSigns ts := by
  refine ⟨t.mark true, ?_, ?_⟩ <;> cases s <;>
    simp [Token.markSigns, Token.markSignsFrom, Token.mark, ht, Sign.operator, Kind.asSign?,
      Kind.awaitsOperand]

end Grammar

namespace Postfix

open Token (Kind)
open Grammar

/-! ### Strength -/

/-- The binding strength of the operators at a level. -/
def strength : Level → Int
  | .comparison => 0
  | .sum => 1
  | .product => 2
  | .power => 3
  | .signed => 4
  | .primary => 5

theorem precedence_arith (op : Arith) : precedence (.arith op) = strength (levelOf op) := by
  cases op <;> rfl

theorem strength_le_tighter (level : Level) : strength level ≤ strength level.tighter := by
  cases level <;> decide

theorem strength_levelOf_lt (op : Arith) :
    strength (levelOf op) < strength (levelOf op).tighter := by
  cases op <;> decide

/-- A kind that is no sign.  Only signs are compared with the stack in another way. -/
def NoSign (k : Kind) : Prop := ∀ s, k ≠ .sign s

theorem precedence_lt_of_noSign {k : Kind} (h : NoSign k) : precedence k < strength .signed := by
  cases k with
  | sign s => exact absurd rfl (h s)
  | arith op => cases op <;> decide
  | compare _ => exact (by decide : (0 : Int) < 4)
  | _ => decide

/-- No operator takes its operands before a sign that follows it. -/
theorem precedes_sign (k : Kind) (s : Sign) : precedes k (.sign s) = false := by
  cases k with
  | arith op => cases op <;> rfl
  | _ => rfl

theorem precedes_arith (op : Arith) {k : Kind} (h : NoSign k) :
    precedes (.arith op) k = decide (precedence k ≤ strength (levelOf op)) := by
  rw [← precedence_arith]
  cases k with
  | sign s => exact absurd rfl (h s)
  | _ => rfl

theorem precedes_compare (op : Comparison) {k : Kind} (h : NoSign k) :
    precedes (.compare op) k = decide (precedence k ≤ strength .comparison) := by
  cases k with
  | sign s => exact absurd rfl (h s)
  | _ => rfl

theorem precedes_of_sign (s : Sign) {k : Kind} (h : NoSign k) : precedes (.sign s) k = true := by
  have hlt := precedence_lt_of_noSign h
  cases k with
  | sign s => exact absurd rfl (h s)
  | _ => exact decide_eq_true (Int.le_of_lt hlt)

/-! ### The two sides of a phrase on the stack -/

/-- The stack keeps what it holds while a phrase of the level is read. -/
structure Guards (level : Level) (stack : List Token) : Prop where
  not_func : ∀ top ∈ stack.head?, top.kind ≠ .func
  not_precedes : ∀ top ∈ stack.head?, ∀ k, NoSign k → strength level ≤ precedence k →
    precedes top.kind k = false

/-- The waiting operators give way to every operator that can follow a phrase of the level. -/
def Yields (level : Level) (ops : List Token) : Prop :=
  ∀ op ∈ ops, ∀ k, NoSign k → precedence k ≤ strength level → precedes op.kind k = true

variable {level : Level} {stack ops us : List Token} {t l r f : Token}

theorem guards_nil : Guards level [] := ⟨by simp, by simp⟩

theorem guards_lparen (hl : l.kind = .lparen) : Guards level (l :: stack) := by
  constructor
  · simp [hl]
  · rintro top ⟨⟩ k - -
    rw [hl]
    rfl

theorem Guards.tighter (h : Guards level stack) : Guards level.tighter stack :=
  ⟨h.not_func, fun top ht k hk hle =>
    h.not_precedes top ht k hk (Int.le_trans (strength_le_tighter level) hle)⟩

theorem guards_arith {op : Arith} (ht : t.kind = .arith op) :
    Guards (levelOf op).tighter (t :: stack) := by
  constructor
  · simp [ht]
  · rintro top ⟨⟩ k hk hle
    have hlt := strength_levelOf_lt op
    rw [ht, precedes_arith op hk, decide_eq_false_iff_not]
    omega

theorem guards_compare {op : Comparison} (ht : t.kind = .compare op) :
    Guards .sum (t :: stack) := by
  constructor
  · simp [ht]
  · rintro top ⟨⟩ k hk hle
    have hlt : strength .comparison < strength .sum := by decide
    rw [ht, precedes_compare op hk, decide_eq_false_iff_not]
    omega

/-- Nothing that can stand in a signed operand outside of parentheses is as weak as a sign. -/
theorem guards_sign {s : Sign} (ht : t.kind = .sign s) : Guards .signed (t :: stack) := by
  constructor
  · simp [ht]
  · rintro top ⟨⟩ k hk hle
    exact absurd (precedence_lt_of_noSign hk) (by omega)

theorem yields_nil : Yields level [] := by simp [Yields]

theorem Yields.of_tighter (h : Yields level.tighter ops) : Yields level ops :=
  fun op hop k hk hle => h op hop k hk (Int.le_trans hle (strength_le_tighter level))

theorem Yields.concat (h : Yields level ops)
    (ht : ∀ k, NoSign k → precedence k ≤ strength level → precedes t.kind k = true) :
    Yields level (ops ++ [t]) := by
  intro op hop
  rcases List.mem_append.1 hop with hop | hop
  · exact h op hop
  · rw [List.mem_singleton.1 hop]
    exact ht

theorem Yields.ne_lparen (h : Yields level ops) : ∀ op ∈ ops, op.kind ≠ .lparen := by
  intro op hop hk
  -- a comparison is weak enough at every level, and a parenthesis does not give way to it
  have hweak : precedence (.compare .lt) ≤ strength level := by cases level <;> decide
  have hpre := h op hop (.compare .lt) (by simp [NoSign]) hweak
  rw [hk] at hpre
  cases hpre

/-! ### The machine on one token -/

theorem reorderFrom_operand (ht : t.kind = .number ∨ t.kind = .var) :
    reorderFrom stack (t :: us) = t :: reorderFrom stack us := by
  rcases ht with ht | ht <;> simp only [reorderFrom, ht]

theorem reorderFrom_push (ht : t.kind = .func ∨ t.kind = .lparen) :
    reorderFrom stack (t :: us) = reorderFrom (t :: stack) us := by
  rcases ht with ht | ht <;> simp only [reorderFrom, ht]

theorem reorderFrom_sign {s : Sign} (ht : t.kind = .sign s) :
    reorderFrom stack (t :: us) = reorderFrom (t :: stack) us := by
  simp only [reorderFrom, ht, precedes_sign]
  cases stack <;> simp

/-- The waiting operators that precede an operator are written before it waits itself. -/
theorem reorderFrom_operator
    (ht : (∃ op, t.kind = .arith op) ∨ ∃ op, t.kind = .compare op)
    (hops : ∀ op ∈ ops, precedes op.kind t.kind = true)
    (hstack : ∀ top ∈ stack.head?, precedes top.kind t.kind = false) :
    reorderFrom (ops ++ stack) (t :: us) = ops ++ reorderFrom (t :: stack) us := by
  have htake : (ops ++ stack).takeWhile (fun top => precedes top.kind t.kind) = ops := by
    rw [List.takeWhile_append_of_pos hops]
    cases stack with
    | nil => simp
    | cons top below => simp [hstack top rfl]
  have hdrop : (ops ++ stack).dropWhile (fun top => precedes top.kind t.kind) = stack := by
    rw [List.dropWhile_append_of_pos hops]
    cases stack with
    | nil => rfl
    | cons top below => simp [hstack top rfl]
  rcases ht with ⟨op, ht⟩ | ⟨op, ht⟩
  all_goals
    rw [ht] at htake hdrop
    simp only [reorderFrom, ht, htake, hdrop]

theorem inside_append (hops : ∀ op ∈ ops, op.kind ≠ .lparen) (hl : l.kind = .lparen)
    (stack : List Token) :
    inside (ops ++ l :: stack) = ops ∧ outside (ops ++ l :: stack) = l :: stack :=
  Token.span_kind hops hl stack

/-- A closing parenthesis writes what waits inside and drops the opening one. -/
theorem reorderFrom_rparen (hops : ∀ op ∈ ops, op.kind ≠ .lparen) (hl : l.kind = .lparen)
    (hr : r.kind = .rparen) (hstack : ∀ top ∈ stack.head?, top.kind ≠ .func) :
    reorderFrom (ops ++ l :: stack) (r :: us) = ops ++ reorderFrom stack us := by
  obtain ⟨hin, hout⟩ := inside_append hops hl stack
  simp only [reorderFrom, hr, hin, hout, List.drop_one, List.tail_cons]
  cases stack with
  | nil => rfl
  | cons top below => simp only [if_neg (hstack top rfl)]

/-- The closing parenthesis of a call writes the function as well. -/
theorem reorderFrom_rparen_call (hops : ∀ op ∈ ops, op.kind ≠ .lparen) (hf : f.kind = .func)
    (hl : l.kind = .lparen) (hr : r.kind = .rparen) :
    reorderFrom (ops ++ l :: f :: stack) (r :: us) = ops ++ f :: reorderFrom stack us := by
  obtain ⟨hin, hout⟩ := inside_append hops hl (f :: stack)
  simp only [reorderFrom, hr, hin, hout, List.drop_one, List.tail_cons, hf, ↓reduceIte]

/-! ### The machine on a phrase -/

/-- **The invariant of the machine.**  While a phrase is read, some of the nodes of its tree are
written, in post-order, and the others wait above what lay on the stack. -/
structure Reordered (level : Level) (ts : List Token) (e : Expr) (out ops : List Token) : Prop where
  postorder : Postorder (out ++ ops) e
  yields : Yields level ops
  run : ∀ stack us, Guards level stack →
    reorderFrom stack (Token.markSigns ts ++ us) = out ++ reorderFrom (ops ++ stack) us

variable {ts ls rs out outl outr opsl opsr : List Token} {e l' r' : Expr} {level' : Level}

/-- A number or a variable is written at once. -/
theorem Reordered.operand (ht : t.kind = .number ∨ t.kind = .var) (hpost : Postorder [t] e) :
    Reordered .primary [t] e [t] [] where
  postorder := hpost
  yields := yields_nil
  run stack us _ := by
    have hmark : Token.markSigns [t] = [t] := by
      rcases ht with ht | ht <;>
        simp [Token.markSigns, Token.markSignsFrom, Token.mark, Kind.asSign?, ht]
    rw [hmark]
    exact reorderFrom_operand ht

/-- All that waits inside parentheses is written when they are closed. -/
theorem Reordered.parens (h : Reordered .comparison ts e out ops)
    (hts : Derives .comparison ts e) (hl : l.kind = .lparen) (hr : r.kind = .rparen) :
    Reordered .primary (l :: ts ++ [r]) e (out ++ ops) [] where
  postorder := by
    rw [List.append_nil]
    exact h.postorder
  yields := yields_nil
  run stack us hg := by
    rw [markSigns_parens hl hts, List.cons_append, reorderFrom_push (.inr hl),
      List.append_assoc, h.run _ _ (guards_lparen hl), List.singleton_append,
      reorderFrom_rparen h.yields.ne_lparen hl hr hg.not_func]
    simp

/-- The function of a call is written after what waits inside its parentheses. -/
theorem Reordered.call (h : Reordered .comparison ts e out ops)
    (hts : Derives .comparison ts e) (hf : f.kind = .func) (hl : l.kind = .lparen)
    (hr : r.kind = .rparen) :
    Reordered .primary (f :: l :: ts ++ [r]) (.call f.text [e]) (out ++ ops ++ [f]) [] where
  postorder := by
    rw [List.append_nil]
    exact .call hf h.postorder
  yields := yields_nil
  run stack us _ := by
    rw [markSigns_call hf hl hts, List.cons_append, List.cons_append, reorderFrom_push (.inl hf),
      reorderFrom_push (.inr hl), List.append_assoc, h.run _ _ (guards_lparen hl),
      List.singleton_append, reorderFrom_rparen_call h.yields.ne_lparen hf hl hr]
    simp

/-- A sign waits below the operators of its operand. -/
theorem Reordered.signed {s : Sign} (h : Reordered .signed ts e out ops)
    (ht : t.kind = .arith s.operator) :
    ∃ u, Reordered .signed (t :: ts) (.signed s e) out (ops ++ [u]) := by
  obtain ⟨u, hu, hmark⟩ := markSigns_signed ht
  refine ⟨u, ?_, h.yields.concat fun k hk _ => ?_, fun stack us _ => ?_⟩
  · rw [← List.append_assoc]
    exact .signed hu h.postorder
  · rw [hu]
    exact precedes_of_sign s hk
  · rw [hmark, List.cons_append, reorderFrom_sign hu, h.run _ _ (guards_sign hu)]
    simp

/-- An operator between two operands writes what waits of the left one, and waits below the
operators of the right one. -/
theorem Reordered.binary (hl : Reordered level ls l' outl opsl)
    (hr : Reordered level' rs r' outr opsr) (hls : Derives level ls l')
    (ht : (∃ op, t.kind = .arith op) ∨ ∃ op, t.kind = .compare op)
    (hlevel : precedence t.kind = strength level)
    (hpre : ∀ k, NoSign k → precedence k ≤ strength level → precedes t.kind k = true)
    (hguards : ∀ stack, Guards level' (t :: stack)) (hyields : Yields level opsr)
    (hpost : Postorder (outl ++ opsl ++ (outr ++ opsr) ++ [t]) e) :
    Reordered level (ls ++ t :: rs) e (outl ++ opsl ++ outr) (opsr ++ [t]) where
  postorder := by
    rw [← List.append_assoc, List.append_assoc (outl ++ opsl)]
    exact hpost
  yields := hyields.concat hpre
  run stack us hg := by
    have hno : NoSign t.kind := by
      rcases ht with ⟨op, ht⟩ | ⟨op, ht⟩ <;> simp [NoSign, ht]
    -- the operators of the left operand precede `t`, and what lies below them does not
    have hopsl : ∀ op ∈ opsl, precedes op.kind t.kind = true := fun op hop =>
      hl.yields op hop _ hno (Int.le_of_eq hlevel)
    have hstack : ∀ top ∈ stack.head?, precedes top.kind t.kind = false := fun top htop =>
      hg.not_precedes top htop _ hno (Int.le_of_eq hlevel.symm)
    rw [hls.markSigns_append, markSignsFrom_operator ht, List.append_assoc, hl.run _ _ hg,
      List.cons_append, reorderFrom_operator ht hopsl hstack, hr.run _ _ (hguards _)]
    simp

/-- A phrase of a tighter level is read as one of this level. -/
theorem Reordered.of_tighter (h : Reordered level.tighter ts e out ops) :
    Reordered level ts e out ops where
  postorder := h.postorder
  yields := h.yields.of_tighter
  run stack us hg := h.run stack us hg.tighter

/-- The invariant holds for every phrase. -/
theorem exists_reordered (h : Derives level ts e) : ∃ out ops, Reordered level ts e out ops := by
  induction h with
  | number ht hv => exact ⟨_, _, .operand (.inl ht) (.number ht hv)⟩
  | var ht => exact ⟨_, _, .operand (.inr ht) (.var ht)⟩
  | parens hl hr hts ih =>
    obtain ⟨out, ops, h⟩ := ih
    exact ⟨_, _, h.parens hts hl hr⟩
  | call hf hl hr hts ih =>
    obtain ⟨out, ops, h⟩ := ih
    exact ⟨_, _, h.call hts hf hl hr⟩
  | signed ht _ ih =>
    obtain ⟨out, ops, h⟩ := ih
    obtain ⟨u, hu⟩ := h.signed ht
    exact ⟨_, _, hu⟩
  | @arith t op _ _ _ _ ht hls _ ihl ihr =>
    obtain ⟨outl, opsl, hl⟩ := ihl
    obtain ⟨outr, opsr, hr⟩ := ihr
    refine ⟨_, _, hl.binary hr hls (.inl ⟨op, ht⟩) (by rw [ht, precedence_arith])
      (fun k hk hle => ?_) (fun _ => guards_arith ht) hr.yields.of_tighter
      (.arith ht hl.postorder hr.postorder)⟩
    rw [ht, precedes_arith op hk]
    exact decide_eq_true hle
  | @compare t op _ _ _ _ ht hls _ ihl ihr =>
    obtain ⟨outl, opsl, hl⟩ := ihl
    obtain ⟨outr, opsr, hr⟩ := ihr
    refine ⟨_, _, hl.binary hr hls (.inr ⟨op, ht⟩) (by rw [ht]; rfl)
      (fun k hk hle => ?_) (fun _ => guards_compare ht) (@Yields.of_tighter .comparison _ hr.yields)
      (.compare ht hl.postorder hr.postorder)⟩
    rw [ht, precedes_compare op hk]
    exact decide_eq_true hle
  | tighter _ ih =>
    obtain ⟨out, ops, h⟩ := ih
    exact ⟨out, ops, h.of_tighter⟩

/-! ### Whole formulas -/

/-- Marking signs makes no marks of a conditional. -/
theorem isMark_markSigns (h : ∀ t ∈ ts, isMark t = false) :
    ∀ t ∈ Token.markSigns ts, isMark t = false := by
  intro t ht
  rcases Token.mem_markSignsFrom ht with ht | ⟨s, hs⟩
  · exact h t ht
  · simp [isMark, hs]

theorem unmarked_markSigns (h : ∀ t ∈ ts, isMark t = false) :
    Token.Unmarked (Token.markSigns ts) := by
  intro t ht
  obtain ⟨hquestion, hcolon, -⟩ := isMark_eq_false_iff.1 (isMark_markSigns h t ht)
  exact ⟨hquestion, hcolon⟩

theorem markSigns_ne_nil (h : ts ≠ []) : Token.markSigns ts ≠ [] := by
  cases ts with
  | nil => exact absurd rfl h
  | cons t ts => exact List.cons_ne_nil _ _

/-- Tokens without marks are a plain formula. -/
theorem ofTokens_of_isMark (h : ∀ t ∈ ts, isMark t = false) :
    ofTokens ts = reorder (Token.markSigns ts) := by
  simp only [ofTokens, Token.split_of_unmarked (unmarked_markSigns h), bind, Except.bind]

/-- A phrase is put into the post-order of its tree. -/
theorem reorder_derives (h : Derives level ts e) :
    ∃ ps, reorder (Token.markSigns ts) = .ok ps ∧ Postorder ps e := by
  obtain ⟨out, ops, hpost, -, hrun⟩ := exists_reordered h
  -- what still waits at the end is written as it lies on the stack
  have hps : reorderFrom [] (Token.markSigns ts) = out ++ ops := by
    have hrun := hrun [] [] guards_nil
    rwa [List.append_nil, List.append_nil] at hrun
  exact ⟨out ++ ops, reorder_eq_ok_iff.2 ⟨isMark_markSigns h.not_isMark, hps.symm⟩, hpost⟩

/-- A part of a conditional leaves one value. -/
theorem part_derives (h : Derives level ts e) (pos : Nat) :
    ∃ ps, part pos (Token.markSigns ts) = .ok ps ∧ Postorder ps e := by
  obtain ⟨ps, hps, hpost⟩ := reorder_derives h
  have hvalue := valueCount_of_postorder hpost (ne_choice_of_reorder hps)
  exact ⟨ps, part_eq_ok_iff.2 ⟨hps, hvalue⟩, hpost⟩

/-- The parts of a conditional are marked each by itself. -/
theorem markSigns_conditional {q k : Token} (hq : q.kind = .question) (hk : k.kind = .colon)
    (cs ys ns : List Token) :
    Token.markSigns (cs ++ q :: (ys ++ k :: ns)) =
      Token.markSigns cs ++ q :: (Token.markSigns ys ++ k :: Token.markSigns ns) := by
  have hquestion := Token.markSignsFrom_append_cons (by rw [hq]; rfl) (by rw [hq]; rfl) true cs
    (ys ++ k :: ns)
  have hcolon := Token.markSignsFrom_append_cons (by rw [hk]; rfl) (by rw [hk]; rfl) true ys ns
  rw [Token.markSigns, hquestion, hcolon]

/-- A conditional is put into postfix order part by part. -/
theorem ofTokens_conditional_eq_ok_iff {q k : Token} {cs ys ns : List Token}
    (hq : q.kind = .question) (hk : k.kind = .colon)
    (hcs : ∀ t ∈ cs, isMark t = false) (hys : ∀ t ∈ ys, isMark t = false)
    (hns : ∀ t ∈ ns, isMark t = false) (hc : cs ≠ []) (hy : ys ≠ []) (hn : ns ≠ []) :
    ofTokens (cs ++ q :: (ys ++ k :: ns)) = .ok ps ↔
      ∃ pc py pn, part q.pos (Token.markSigns cs) = .ok pc ∧
        part q.pos (Token.markSigns ys) = .ok py ∧ part q.pos (Token.markSigns ns) = .ok pn ∧
        ps = pc ++ py ++ pn ++ [Token.choiceAt q.pos] := by
  have hsplit := Token.split_of_conditional hq hk (unmarked_markSigns hcs) (unmarked_markSigns hys)
    (unmarked_markSigns hns) (markSigns_ne_nil hc) (markSigns_ne_nil hy) (markSigns_ne_nil hn)
  simp only [ofTokens, markSigns_conditional hq hk, hsplit, bind, Except.bind]
  simp only [show (Token.choiceAt q.pos).pos = q.pos from rfl]
  cases part q.pos (Token.markSigns cs) with
  | error err => simp
  | ok pc =>
    cases part q.pos (Token.markSigns ys) with
    | error err => simp
    | ok py =>
      cases part q.pos (Token.markSigns ns) with
      | error err => simp
      | ok pn => simp [pure, Except.pure, eq_comm]

/-- A formula is put into the post-order of its tree. -/
theorem ofTokens_sentence (h : Sentence ts e) : ∃ ps, ofTokens ts = .ok ps ∧ Postorder ps e := by
  cases h with
  | plain h =>
    obtain ⟨ps, hps, hpost⟩ := reorder_derives h
    exact ⟨ps, (ofTokens_of_isMark h.not_isMark).trans hps, hpost⟩
  | @conditional q k cs ys ns c y n hq hk hc hy hn =>
    obtain ⟨pc, hpc, hpostc⟩ := part_derives hc q.pos
    obtain ⟨py, hpy, hposty⟩ := part_derives hy q.pos
    obtain ⟨pn, hpn, hpostn⟩ := part_derives hn q.pos
    refine ⟨pc ++ py ++ pn ++ [Token.choiceAt q.pos], ?_, .choice rfl hpostc hposty hpostn⟩
    exact (ofTokens_conditional_eq_ok_iff hq hk hc.not_isMark hy.not_isMark hn.not_isMark hc.ne_nil
      hy.ne_nil hn.ne_nil).2 ⟨pc, py, pn, hpc, hpy, hpn, rfl⟩

/-- The tree of a formula is built if it is not too high. -/
theorem exists_ofPostfix_of_sentence (h : Sentence ts e) (hle : e.height ≤ Expr.maxHeight) :
    ∃ ps, ofTokens ts = .ok ps ∧ Expr.ofPostfix ps = .ok e := by
  obtain ⟨ps, hps, hpost⟩ := ofTokens_sentence h
  exact ⟨ps, hps, hpost.ofPostfix hle⟩

/-- **Formulas are read as the grammar says.**  A formula is put into postfix order, its tree is
built from that if it is not too high, and no formula has two trees, high or not. -/
theorem ofPostfix_ofTokens_sentence (h : Sentence ts e) :
    (e.height ≤ Expr.maxHeight →
      ∃ ps, ofTokens ts = .ok ps ∧ Expr.ofPostfix ps = .ok e) ∧
    ∀ e', Sentence ts e' → e' = e := by
  refine ⟨exists_ofPostfix_of_sentence h, ?_⟩
  intro e' h'
  -- both trees are listed by the one result of `ofTokens`
  obtain ⟨ps, hps, hpost⟩ := ofTokens_sentence h
  obtain ⟨ps', hps', hpost'⟩ := ofTokens_sentence h'
  rw [hps, Except.ok.injEq] at hps'
  subst hps'
  exact hpost'.unique hpost

/-- In `a ? -a ^ 2 : f(a)` the sign binds tighter than the power. -/
theorem ofPostfix_ofTokens_conditional :
    ∃ ps, ofTokens [⟨.var, "a", 0⟩, ⟨.question, "?", 1⟩, ⟨.arith .sub, "-", 2⟩, ⟨.var, "a", 3⟩,
        ⟨.arith .pow, "^", 4⟩, ⟨.number, "2", 5⟩, ⟨.colon, ":", 6⟩, ⟨.func, "f", 7⟩,
        ⟨.lparen, "(", 8⟩, ⟨.var, "a", 9⟩, ⟨.rparen, ")", 10⟩] = .ok ps ∧
      Expr.ofPostfix ps = .ok (.choice (.var "a")
        (.arith .pow (.signed .minus (.var "a")) (.num 2)) (.call "f" [.var "a"])) := by
  have hvar (level : Level) (pos : Nat) : Derives level [⟨.var, "a", pos⟩] (.var "a") :=
    .of_primary (.var rfl)
  have htwo : Derives .signed [⟨.number, "2", 5⟩] (.num 2) :=
    .of_primary (.number rfl (by decide))
  have hsign : Derives .power [⟨.arith .sub, "-", 2⟩, ⟨.var, "a", 3⟩]
      (.signed .minus (.var "a")) := .tighter (.signed rfl (hvar .signed 3))
  have hpower : Derives .comparison _ (.arith .pow (.signed .minus (.var "a")) (.num 2)) :=
    .tighter (.tighter (.tighter (.arith (t := ⟨.arith .pow, "^", 4⟩) rfl hsign htwo)))
  have hcall : Derives .comparison _ (.call "f" [.var "a"]) :=
    .of_primary (.call (f := ⟨.func, "f", 7⟩) (l := ⟨.lparen, "(", 8⟩) (r := ⟨.rparen, ")", 10⟩)
      rfl rfl rfl (hvar .comparison 9))
  exact (ofPostfix_ofTokens_sentence (.conditional (q := ⟨.question, "?", 1⟩)
    (k := ⟨.colon, ":", 6⟩) rfl rfl (hvar .comparison 0) hpower hcall)).1 (by decide)

end Postfix

end Formula
