import Formula.Proofs.Conservation
import Formula.Proofs.Parsed
import Formula.Proofs.Reordering

/-!
# Parentheses that do not match

Putting tokens into postfix order refuses no parenthesis.  An opening one that is never closed stays
among the tokens, so that no tree is built from them.  A closing one that has nothing to close is
dropped, and closes the formula up to there as if it had been opened at the start.

* `Token.Balanced` is the balance of parentheses, and `Token.balanced_iff` takes it apart: every
  parenthesis that is closed has been opened (`Token.Opened`), and every one that is opened is
  closed (`Token.Closed`).
* `Token.closed_of_survivors` and `Token.isOpening_eq_false_of_closed`: parentheses are closed just
  if none of them stays in postfix order.
* **`Expr.parse_unclosed`**: a formula with an opening parenthesis that is not closed has no tree.
* `Postfix.ofTokens_cons_lparen`: a formula with a closing parenthesis that has not been opened is
  read as if it had one opening parenthesis more in front.
-/

namespace Formula

namespace Token

/-- The token is an opening parenthesis. -/
def isOpening (t : Token) : Bool := t.kind = .lparen

/-- The token is a closing parenthesis. -/
def isClosing (t : Token) : Bool := t.kind = .rparen

/-- Before each closing parenthesis there is one to be closed. -/
def Opened (ts : List Token) : Prop :=
  ∀ us, us <+: ts → us.countP isClosing ≤ us.countP isOpening

/-- After each opening parenthesis there is one that closes it. -/
def Closed (ts : List Token) : Prop :=
  ∀ us, us <:+ ts → us.countP isOpening ≤ us.countP isClosing

/-- No parenthesis is closed that has not been opened, and as many are closed as are opened. -/
def Balanced (ts : List Token) : Prop :=
  Opened ts ∧ ts.countP isOpening = ts.countP isClosing

variable {t l : Token} {ts us : List Token}

theorem balanced_iff : Balanced ts ↔ Opened ts ∧ Closed ts := by
  refine and_congr_right fun hopened => ⟨?_, ?_⟩
  · rintro htotal us ⟨vs, rfl⟩
    have hvs := hopened vs (List.prefix_append ..)
    simp only [List.countP_append] at htotal
    omega
  · intro hclosed
    have hle := hclosed ts (List.suffix_refl ts)
    have hge := hopened ts (List.prefix_refl ts)
    omega

theorem Closed.append (hts : Closed ts) (hus : Closed us) : Closed (ts ++ us) := by
  rintro vs ⟨ws, h⟩
  -- the suffix ends within `us`, or takes in all of it
  rcases List.append_eq_append_iff.1 h with ⟨as, rfl, rfl⟩ | ⟨as, rfl, rfl⟩
  · have has := hts as (List.suffix_append ..)
    have hus := hus us (List.suffix_refl us)
    simp only [List.countP_append]
    omega
  · exact hus vs (List.suffix_append ..)

theorem Closed.cons (h : Closed ts) (ht : t.isOpening = false) : Closed (t :: ts) := by
  intro us hus
  rcases List.suffix_cons_iff.1 hus with rfl | hus
  · have hle := h ts (List.suffix_refl ts)
    simp only [List.countP_cons, ht, Bool.false_eq_true, ↓reduceIte]
    omega
  · exact h us hus

theorem Opened.of_prefix (h : Opened ts) (hus : us <+: ts) : Opened us :=
  fun vs hvs => h vs (hvs.trans hus)

theorem Closed.of_suffix (h : Closed ts) (hus : us <:+ ts) : Closed us :=
  fun vs hvs => h vs (hvs.trans hus)

theorem Closed.balanced (h : Closed ts) (htotal : ts.countP isOpening = ts.countP isClosing) :
    Balanced ts := by
  refine ⟨?_, htotal⟩
  rintro us ⟨vs, rfl⟩
  have hle := h vs (List.suffix_append ..)
  simp only [List.countP_append] at htotal
  omega

/-- What follows a mark of a conditional and balanced tokens before it is opened by itself. -/
theorem Opened.of_append_mark (ht : t.kind = .question ∨ t.kind = .colon)
    (h : Opened (us ++ t :: ts)) (hus : us.countP isOpening = us.countP isClosing) :
    Opened ts := by
  intro vs hvs
  have hopening : t.isOpening = false := by rcases ht with ht | ht <;> simp [isOpening, ht]
  have hclosing : t.isClosing = false := by rcases ht with ht | ht <;> simp [isClosing, ht]
  have hle := h (us ++ t :: vs)
    ((List.prefix_append_right_inj us).2 (List.cons_prefix_cons.2 ⟨rfl, hvs⟩))
  simp [hopening, hclosing] at hle
  omega

/-! ### Parentheses that stay -/

/-- An opening parenthesis stays or is closed, and a closing one is counted. -/
theorem isOpening_add_unopened (t : Token) (n : Nat) :
    (if t.isOpening then 1 else 0) + t.unopened n =
      (if t.isClosing then 1 else 0) + n + ([t].filter (isKept n)).countP isOpening := by
  obtain ⟨kind, text, pos⟩ := t
  cases kind with
  | lparen =>
    cases n with
    | zero => rfl
    | succ n => simp [unopened, isKept, isOpening, isClosing, Nat.add_comm]
  | rparen => simp [unopened, isKept, isOpening, isClosing, Nat.add_comm]
  | _ => simp [unopened, isKept, isOpening, isClosing, List.filter_cons]

/-- Of the parentheses, the opening ones that are not closed stay, and the closing ones that have
not been opened are counted. -/
theorem countP_isOpening_add_surplus (ts : List Token) :
    ts.countP isOpening + surplus ts = ts.countP isClosing + (survivors ts).countP isOpening := by
  induction ts with
  | nil => rfl
  | cons t ts ih =>
    have hstep := isOpening_add_unopened t (surplus ts)
    simp only [survivors, surplus, List.countP_cons, List.countP_append]
    omega

theorem survivors_suffix (h : us <:+ ts) : survivors us <:+ survivors ts := by
  induction ts with
  | nil => rw [List.suffix_nil.1 h]
  | cons t ts ih =>
    rcases List.suffix_cons_iff.1 h with rfl | h
    · exact List.suffix_refl _
    · exact (ih h).trans (List.suffix_append ..)

/-- Parentheses are closed if none of them stays. -/
theorem closed_of_survivors (h : ∀ t ∈ survivors ts, t.isOpening = false) : Closed ts := by
  intro us hus
  have hcount := countP_isOpening_add_surplus us
  have hzero : (survivors us).countP isOpening = 0 := by
    rw [List.countP_eq_zero]
    intro t ht
    simp [h t ((survivors_suffix hus).subset ht)]
  omega

/-- If parentheses are closed, none of them stays. -/
theorem isOpening_eq_false_of_closed (h : Closed ts) : ∀ t ∈ survivors ts, t.isOpening = false := by
  induction ts with
  | nil => exact fun _ hu => absurd hu List.not_mem_nil
  | cons t ts ih =>
    intro u hu
    rcases List.mem_append.1 hu with hhead | htail
    · obtain ⟨hmem, hkept⟩ := List.mem_filter.1 hhead
      obtain rfl := List.mem_singleton.1 hmem
      by_contra hopening
      rw [Bool.not_eq_false] at hopening
      have hkind : u.kind = .lparen := by simpa [isOpening] using hopening
      have hzero : surplus ts = 0 := by simpa [isKept, hkind] using hkept
      -- nothing after it is left to close it, so that from there on fewer are closed than opened
      have hsurplus : surplus (u :: ts) = 0 := by simp [surplus, unopened, hkind, hzero]
      have hstays : 0 < (survivors (u :: ts)).countP isOpening :=
        List.countP_pos_iff.2 ⟨u, hu, hopening⟩
      have hcount := countP_isOpening_add_surplus (u :: ts)
      have hle := h (u :: ts) (List.suffix_refl _)
      omega
    · exact ih (h.of_suffix (List.suffix_cons t ts)) u htail

/-- Before each closing parenthesis but those that are counted there is one to be closed. -/
theorem countP_isClosing_le (h : us <+: ts) :
    us.countP isClosing ≤ us.countP isOpening + surplus ts := by
  induction ts generalizing us with
  | nil => simp [List.prefix_nil.1 h]
  | cons t ts ih =>
    rcases List.prefix_cons_iff.1 h with rfl | ⟨vs, rfl, hvs⟩
    · simp
    · have ih := ih hvs
      have hstep := isOpening_add_unopened t (surplus ts)
      simp only [surplus, List.countP_cons]
      omega

theorem opened_of_surplus (h : surplus ts = 0) : Opened ts := by
  intro us hus
  have hle := countP_isClosing_le hus
  omega

/-! ### Signs -/

theorem isOpening_mark (due : Bool) (t : Token) : (t.mark due).isOpening = t.isOpening :=
  apply_mark (fun ht hu => by simp [isOpening, ht, hu]) due t

theorem isClosing_mark (due : Bool) (t : Token) : (t.mark due).isClosing = t.isClosing :=
  apply_mark (fun ht hu => by simp [isClosing, ht, hu]) due t

theorem unopened_mark (n : Nat) (due : Bool) (t : Token) :
    (t.mark due).unopened n = t.unopened n :=
  apply_mark (fun ht hu => by simp [unopened, ht, hu]) due t

/-- Marking signs moves no parenthesis. -/
theorem closed_of_markSigns (h : Closed (markSigns ts)) : Closed ts := by
  rintro us ⟨vs, rfl⟩
  rw [markSigns, markSignsFrom_append] at h
  have hle := h _ (List.suffix_append ..)
  rwa [countP_markSignsFrom isOpening_mark, countP_markSignsFrom isClosing_mark] at hle

theorem surplus_markSignsFrom (due : Bool) (ts : List Token) :
    surplus (markSignsFrom due ts) = surplus ts := by
  induction ts generalizing due with
  | nil => rfl
  | cons t ts ih => rw [markSignsFrom, surplus, surplus, unopened_mark, ih]

end Token

namespace Postfix

open Token (Kind Closed Opened surplus isOpening)

variable {ts us ps stack : List Token} {t l : Token} {e : Expr}

theorem closed_of_reorder (h : reorder ts = .ok ps) (hps : ∀ t ∈ ps, t.isOpening = false) :
    Closed ts := by
  obtain ⟨-, rfl⟩ := reorder_eq_ok_iff.1 h
  exact Token.closed_of_survivors fun t ht => hps t ((reorder_perm ts).mem_iff.2 ht)

/-- A tree is built from no parentheses, for none stands for a node. -/
theorem isOpening_eq_false_of_postorder (h : Postorder ps e) :
    ∀ t ∈ ps, t.isOpening = false := by
  intro t ht
  obtain ⟨m, hm⟩ := h.exists_node? t ht
  by_contra hopening
  simp only [Bool.not_eq_false, Token.isOpening, decide_eq_true_eq] at hopening
  simp [Token.node?, hopening] at hm

/-- Where a tree is built, every parenthesis that is opened is closed. -/
theorem closed_of_ofTokens (h : ofTokens ts = .ok ps) (hpost : Postorder ps e) : Closed ts := by
  have hps := isOpening_eq_false_of_postorder hpost
  apply Token.closed_of_markSigns
  obtain h | ⟨cs, q, ys, k, ns, hts, hq, hk, pc, py, pn, hc, hy, hn, rfl⟩ := ofTokens_cases h
  · exact closed_of_reorder h hps
  · simp only [List.forall_mem_append] at hps
    have hc := closed_of_reorder (part_eq_ok_iff.1 hc).1 hps.1.1.1
    have hy := closed_of_reorder (part_eq_ok_iff.1 hy).1 hps.1.1.2
    have hn := closed_of_reorder (part_eq_ok_iff.1 hn).1 hps.1.2
    rw [hts]
    have hq : q.isOpening = false := by simp [Token.isOpening, hq]
    have hk : k.isOpening = false := by simp [Token.isOpening, hk]
    exact hc.append ((hy.append (hn.cons hk)).cons hq)

/-! ### Closing what has not been opened -/

/-- A token that ends the search does not matter at the end of the list. -/
theorem span_concat {p : Token → Bool} (hl : p l = false) (stack : List Token) :
    (stack ++ [l]).takeWhile p = stack.takeWhile p ∧
      (stack ++ [l]).dropWhile p = stack.dropWhile p ++ [l] := by
  induction stack with
  | nil => simp [hl]
  | cons t stack ih =>
    cases ht : p t with
    | true => simp [ht, ih]
    | false => simp [ht]

/-- An opening parenthesis at the bottom of the stack does not matter to a token that does not close
it. -/
theorem advance_concat (hl : l.kind = .lparen) (h : t.kind = .rparen → outside stack ≠ []) :
    advance t (stack ++ [l]) = ((advance t stack).1, (advance t stack).2 ++ [l]) := by
  have hin : inside (stack ++ [l]) = inside stack ∧ outside (stack ++ [l]) = outside stack ++ [l] :=
    span_concat (by simp [hl]) stack
  have hpre (k : Kind) :
      (stack ++ [l]).takeWhile (fun top => precedes top.kind k) =
          stack.takeWhile (fun top => precedes top.kind k) ∧
        (stack ++ [l]).dropWhile (fun top => precedes top.kind k) =
          stack.dropWhile (fun top => precedes top.kind k) ++ [l] :=
    span_concat (by simp [hl, precedes]) stack
  obtain ⟨kind, text, pos⟩ := t
  cases kind with
  | comma => simp only [advance, hin]
  | arith _ | sign _ | compare _ => simp only [advance, hpre, List.cons_append]
  | rparen =>
    obtain ⟨p, below, hbelow⟩ := List.exists_cons_of_ne_nil (h rfl)
    simp only [advance, hin, hbelow, List.cons_append, List.drop_one, List.tail_cons]
    cases below with
    | nil => simp [hl]
    | cons top below =>
      simp only [List.cons_append]
      split <;> rfl
  | _ => rfl

/-- A parenthesis at the bottom of the stack is closed like the start of the formula. -/
theorem advance_concat_of_closing (ht : t.kind = .rparen) (hl : l.kind = .lparen)
    (h : outside stack = []) : advance t (stack ++ [l]) = advance t stack := by
  have hin : inside (stack ++ [l]) = inside stack ∧ outside (stack ++ [l]) = outside stack ++ [l] :=
    span_concat (by simp [hl]) stack
  simp [advance, ht, hin, h]

/-- Tokens that are taken from the stack because they are no opening parentheses leave those of the
stack as they are. -/
theorem filter_isOpening_span {p : Token → Bool} (hp : ∀ t, p t = true → t.kind ≠ .lparen)
    (stack : List Token) :
    (stack.takeWhile p).filter isOpening = [] ∧
      (stack.dropWhile p).filter isOpening = stack.filter isOpening := by
  have htake : (stack.takeWhile p).filter isOpening = [] := by
    rw [List.filter_eq_nil_iff]
    intro t ht
    simpa [isOpening] using hp t (List.mem_takeWhile_imp ht)
  refine ⟨htake, ?_⟩
  calc (stack.dropWhile p).filter isOpening
      = (stack.takeWhile p ++ stack.dropWhile p).filter isOpening := by
        rw [List.filter_append, htake, List.nil_append]
    _ = stack.filter isOpening := by rw [List.takeWhile_append_dropWhile]

theorem filter_isOpening_inside (stack : List Token) : (inside stack).filter isOpening = [] :=
  (filter_isOpening_span (by simp) stack).1

theorem filter_isOpening_outside (stack : List Token) :
    (outside stack).filter isOpening = stack.filter isOpening :=
  (filter_isOpening_span (by simp) stack).2

/-- The first token from the latest opening parenthesis down is that parenthesis. -/
theorem filter_isOpening_drop_outside (stack : List Token) :
    ((outside stack).drop 1).filter isOpening = (stack.filter isOpening).tail := by
  rw [← filter_isOpening_outside stack]
  cases h : outside stack with
  | nil => rfl
  | cons p below =>
    obtain ⟨-, hp⟩ := Token.eq_span_kind h
    simp [isOpening, hp]

theorem countP_isOpening_inside (stack : List Token) : (inside stack).countP isOpening = 0 := by
  rw [List.countP_eq_length_filter, filter_isOpening_inside, List.length_nil]

theorem countP_isOpening_outside (stack : List Token) :
    ((outside stack).drop 1).countP isOpening = stack.countP isOpening - 1 := by
  rw [List.countP_eq_length_filter, filter_isOpening_drop_outside, List.length_tail,
    ← List.countP_eq_length_filter]

theorem countP_isOpening_closeOpen (n : Nat) (stack : List Token) :
    (closeOpen n stack).countP isOpening = stack.countP isOpening - n := by
  induction n generalizing stack with
  | zero => rfl
  | succ n ih =>
    rw [closeOpen, List.countP_append, countP_isOpening_inside, ih, countP_isOpening_outside]
    omega

/-- A parenthesis that waits after a token has been opened by it, or waited before and has not been
closed by it. -/
theorem countP_isOpening_advance (t : Token) (stack : List Token) :
    (advance t stack).2.countP isOpening ≤
      ([t].filter (Token.isKept 0)).countP isOpening +
        (stack.countP isOpening - t.unopened 0) := by
  have hperm := (advance_perm t stack 0).countP_eq isOpening
  simp only [List.countP_append, countP_isOpening_closeOpen, Nat.sub_zero] at hperm
  omega

/-- Parentheses are left to be closed while those that wait are closed later. -/
theorem countP_isOpening_advance_lt {n : Nat} (h : stack.countP isOpening < t.unopened n)
    (ht : t.kind = .rparen → outside stack ≠ []) :
    (advance t stack).2.countP isOpening < n := by
  have hle := countP_isOpening_advance t stack
  obtain ⟨kind, text, pos⟩ := t
  cases kind with
  | rparen =>
    -- the parenthesis that is closed is one of those that wait
    have hpos : 0 < stack.countP isOpening := by
      obtain ⟨p, below, hbelow⟩ := List.exists_cons_of_ne_nil (ht rfl)
      obtain ⟨hstack, hp⟩ := Token.eq_span_kind hbelow
      rw [List.countP_pos_iff]
      exact ⟨p, by rw [hstack]; simp, by simpa [isOpening] using hp⟩
    simp only [Token.unopened] at h
    simp [Token.unopened, Token.isKept] at hle
    omega
  | _ =>
    simp only [Token.unopened] at h
    simp [Token.unopened, Token.isKept, isOpening, List.filter_cons] at hle
    omega

/-- A parenthesis at the bottom of the stack does not matter if it is closed. -/
theorem reorderFrom_concat (hl : l.kind = .lparen) (h : stack.countP isOpening < surplus ts) :
    reorderFrom (stack ++ [l]) ts = reorderFrom stack ts := by
  induction ts generalizing stack with
  | nil => cases h
  | cons t ts ih =>
    rw [reorderFrom_cons, reorderFrom_cons]
    by_cases hend : t.kind = .rparen ∧ outside stack = []
    · rw [advance_concat_of_closing hend.1 hl hend.2]
    · rw [not_and] at hend
      rw [advance_concat hl hend, ih (countP_isOpening_advance_lt h hend)]

/-- **A closing parenthesis that has not been opened closes the formula up to there.**  With one
opening parenthesis more in front the formula is read the same. -/
theorem ofTokens_cons_lparen (hl : l.kind = .lparen) (hmark : ∀ t ∈ ts, isMark t = false)
    (h : ¬ Opened ts) : ofTokens (l :: ts) = ofTokens ts := by
  have hlmark : ∀ t ∈ l :: ts, isMark t = false :=
    List.forall_mem_cons.2 ⟨by simp [isMark, hl], hmark⟩
  have hsigns : Token.markSigns (l :: ts) = l :: Token.markSigns ts := by
    simp only [Token.markSigns, Token.markSignsFrom,
      Grammar.mark_eq_of_kind .lparen hl rfl, hl, Token.Kind.awaitsOperand]
  have hsurplus : 0 < surplus (Token.markSigns ts) := by
    rw [Token.markSigns, Token.surplus_markSignsFrom]
    exact Nat.pos_of_ne_zero (mt Token.opened_of_surplus h)
  have hbottom : reorderFrom ([] ++ [l]) (Token.markSigns ts) = reorderFrom [] (Token.markSigns ts) :=
    reorderFrom_concat hl hsurplus
  have hfrom : reorderFrom [] (l :: Token.markSigns ts) = reorderFrom [] (Token.markSigns ts) := by
    rw [reorderFrom_cons, ← hbottom]
    simp only [advance, hl, List.nil_append]
  have hpassed (us : List Token) (hus : ∀ t ∈ us, isMark t = false) :
      reorder us = .ok (reorderFrom [] us) := reorder_eq_ok_iff.2 ⟨hus, rfl⟩
  rw [ofTokens_of_isMark hlmark, ofTokens_of_isMark hmark, hpassed _ (isMark_markSigns hlmark),
    hpassed _ (isMark_markSigns hmark), hsigns, hfrom]

end Postfix

namespace Expr

variable {source : String} {ts : List Token}

/-- **An opening parenthesis that is not closed surfaces.**  A text in which a parenthesis is opened
and not closed has no tree. -/
theorem parse_unclosed (hread : Token.read source = .ok ts) (h : ¬ Token.Closed ts) :
    ∃ err, parse source = .error err := by
  cases hparse : parse source with
  | error err => exact ⟨err, rfl⟩
  | ok e =>
    obtain ⟨ts', ps, hread', hps, hpost, -⟩ := parse_eq_ok_iff.1 hparse
    obtain rfl : ts' = ts := by simpa [hread] using hread'.symm
    exact absurd (Postfix.closed_of_ofTokens hps hpost) h

/-- In `(1 + 2` a parenthesis is not closed. -/
theorem parse_unclosed_sum : ∃ err, parse "(1 + 2" = .error err := by
  have hread : Token.read "(1 + 2" = .ok [⟨.lparen, "(", 0⟩, ⟨.number, "1", 1⟩,
      ⟨.arith .add, "+", 3⟩, ⟨.number, "2", 5⟩] := by cbv
  refine parse_unclosed hread ?_
  intro hclosed
  exact absurd (hclosed _ (List.suffix_refl _)) (by decide)

/-- In `1)` a parenthesis is closed that has not been opened, and the tree is that of `1`. -/
theorem parse_stray_closing :
    ∃ ts, Token.read "1)" = .ok ts ∧ ¬ Token.Balanced ts ∧ parse "1)" = .ok (.num 1) := by
  have hread : Token.read "1)" = .ok [⟨.number, "1", 0⟩, ⟨.rparen, ")", 1⟩] := by cbv
  refine ⟨_, hread, ?_, parse_eq_ok_iff.2 ⟨_, _, hread, rfl, ofPostfix_eq_ok_iff.1 rfl⟩⟩
  rintro ⟨-, htotal⟩
  exact absurd htotal (by decide)

end Expr

end Formula
