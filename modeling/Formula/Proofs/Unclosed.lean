import Formula.Proofs.Parentheses

/-!
# Parentheses that are never closed

A closing parenthesis closes the nearest parenthesis that is still open, if there is one.
`Token.unclosed` follows this rule from left to right and lists the opening parentheses that are
still open at the end, and `Token.retained` are the tokens without commas and without parentheses
that are closed or close.  Neither looks at the stack of operators, nor at what follows a token.

* `Token.mem_foldl_trackOpen`: as many of the parentheses that are open are closed by further tokens
  as these have closing ones to spare, the nearest first.  Hence the rule keeps the same tokens as
  the count from the end (`Token.survivors_eq_retained`).
* `Postfix.filter_isOpening_advance` is what one token does to the parentheses that wait on the
  stack, and `Postfix.filter_isOpening_reorderFrom` what a run does: it writes those that are never
  closed, and the one opened last comes first.
* **`Postfix.reorder_conserves`**: tokens without marks, well-formed or not, are put into postfix
  order with nothing lost or doubled but what `Token.retained` leaves out, and no tree is built
  where a parenthesis is never closed.
* `Postfix.unclosed_eq_nil_iff`: none is left open just if each is closed as `Token.Closed` counts.
-/

namespace Formula

namespace Token

/-- The parentheses that are open after a token, each with its place, the nearest first. -/
def trackOpen (opened : List (Token × Nat)) (p : Token × Nat) : List (Token × Nat) :=
  match p.1.kind with
  | .lparen => p :: opened
  -- the nearest one is closed, if there is one
  | .rparen => opened.tail
  | _ => opened

/-- The opening parentheses that are never closed, each with its place, the last one first. -/
def unclosed (ts : List Token) : List (Token × Nat) := ts.zipIdx.foldl trackOpen []

/-- The token is neither a comma nor a closing parenthesis, and if it is an opening one it is among
those that are left open. -/
def isRetained (left : List (Token × Nat)) (p : Token × Nat) : Bool :=
  match p.1.kind with
  | .rparen | .comma => false
  | .lparen => p ∈ left
  | _ => true

/-- The tokens without commas, closing parentheses and the opening ones that are closed. -/
def retained (ts : List Token) : List Token :=
  (ts.zipIdx.filter (isRetained (unclosed ts))).map Prod.fst

variable {t : Token} {ts : List Token} {opened : List (Token × Nat)} {p : Token × Nat} {k : Nat}

/-! ### Open parentheses and the count from the end -/

/-- Of the parentheses that are open before a token, those are left that are not closed by it or by
the `n` closing ones that follow. -/
theorem mem_drop_trackOpen (hp : p.2 < k) (t : Token) (n : Nat) :
    p ∈ (trackOpen opened (t, k)).drop n ↔ p ∈ opened.drop (t.unopened n) := by
  obtain ⟨kind, text, pos⟩ := t
  cases kind with
  | lparen =>
    cases n with
    | zero =>
      have hne : p ≠ (⟨.lparen, text, pos⟩, k) := by
        rintro rfl
        exact absurd hp (Nat.lt_irrefl k)
      simp [trackOpen, unopened, hne]
    | succ n => rfl
  | rparen => simp [trackOpen, unopened]
  | _ => rfl

/-- Tokens close as many of the parentheses that are open before them as they have closing ones to
spare. -/
theorem mem_foldl_trackOpen (hp : p.2 < k) :
    p ∈ (ts.zipIdx k).foldl trackOpen opened ↔ p ∈ opened.drop (surplus ts) := by
  induction ts generalizing k opened with
  | nil => rfl
  | cons t ts ih =>
    rw [List.zipIdx_cons, List.foldl_cons, ih (Nat.lt_succ_of_lt hp), mem_drop_trackOpen hp]
    rfl

theorem lt_of_mem_trackOpen (h : ∀ p ∈ opened, p.2 < k) :
    ∀ p ∈ trackOpen opened (t, k), p.2 < k + 1 := by
  intro p hp
  unfold trackOpen at hp
  split at hp
  · rcases List.mem_cons.1 hp with rfl | hp
    · exact Nat.lt_succ_self k
    · exact Nat.lt_succ_of_lt (h p hp)
  · exact Nat.lt_succ_of_lt (h p (List.mem_of_mem_tail hp))
  · exact Nat.lt_succ_of_lt (h p hp)

/-- A parenthesis is never closed just if the tokens after it have no closing ones to spare. -/
theorem mem_foldl_trackOpen_self (h : ∀ p ∈ opened, p.2 < k) :
    (t, k) ∈ (ts.zipIdx (k + 1)).foldl trackOpen ((t, k) :: opened) ↔ surplus ts = 0 := by
  rw [mem_foldl_trackOpen (Nat.lt_succ_self k)]
  cases surplus ts with
  | zero => simp
  | succ n =>
    have hout : (t, k) ∉ opened.drop n := fun hmem =>
      absurd (h _ (List.mem_of_mem_drop hmem)) (Nat.lt_irrefl k)
    simpa using hout

/-- The first token is retained just if it is kept by the count from the end. -/
theorem isRetained_eq_isKept (ts : List Token) (ht : Postfix.isMark t = false)
    (h : ∀ p ∈ opened, p.2 < k) :
    isRetained ((ts.zipIdx (k + 1)).foldl trackOpen (trackOpen opened (t, k))) (t, k) =
      isKept (surplus ts) t := by
  obtain ⟨kind, text, pos⟩ := t
  cases kind with
  | lparen => simp only [isRetained, isKept, trackOpen, mem_foldl_trackOpen_self h]
  | question | colon | choice => cases ht
  | _ => rfl

/-- From any place on, the tokens that stay are those that are retained. -/
theorem survivors_eq_filter (hts : ∀ t ∈ ts, Postfix.isMark t = false)
    (h : ∀ p ∈ opened, p.2 < k) :
    survivors ts =
      ((ts.zipIdx k).filter (isRetained ((ts.zipIdx k).foldl trackOpen opened))).map Prod.fst := by
  induction ts generalizing k opened with
  | nil => rfl
  | cons t ts ih =>
    obtain ⟨ht, hts⟩ := List.forall_mem_cons.1 hts
    -- what is left open at the end is the same whether it is counted from `t` or from after it
    have hhead := isRetained_eq_isKept ts ht h
    have htail := ih hts (lt_of_mem_trackOpen (t := t) h)
    simp only [survivors, List.zipIdx_cons, List.foldl_cons, List.filter_cons, hhead, htail]
    cases isKept (surplus ts) t <;> rfl

/-- Without marks, the tokens that stay are those that are retained. -/
theorem survivors_eq_retained (h : ∀ t ∈ ts, Postfix.isMark t = false) :
    survivors ts = retained ts :=
  survivors_eq_filter h fun _ hp => absurd hp List.not_mem_nil

end Token

namespace Postfix

open Token (isOpening trackOpen unclosed retained)

variable {stack ts : List Token} {opened : List (Token × Nat)}

/-! ### Open parentheses on the stack -/

/-- **No opening parenthesis is written when a token is read.**  Those that wait on the stack are
the ones that are open. -/
theorem filter_isOpening_advance (h : stack.filter isOpening = opened.map Prod.fst) (t : Token)
    (k : Nat) :
    (advance t stack).1.filter isOpening = [] ∧
      (advance t stack).2.filter isOpening = (trackOpen opened (t, k)).map Prod.fst := by
  obtain ⟨kind, text, pos⟩ := t
  cases kind with
  | number | var | func | question | colon | choice =>
    exact ⟨by simp [advance, isOpening], by simpa [advance, trackOpen, isOpening] using h⟩
  | lparen => exact ⟨rfl, by simp [advance, trackOpen, isOpening, ← h]⟩
  | comma => exact ⟨filter_isOpening_inside stack, (filter_isOpening_outside stack).trans h⟩
  | arith _ | sign _ | compare _ =>
    obtain ⟨htake, hdrop⟩ := filter_isOpening_span (fun _ => ne_lparen_of_precedes) stack
    refine ⟨htake, ?_⟩
    simp only [advance, trackOpen]
    rw [List.filter_cons_of_neg (by simp [isOpening]), hdrop, h]
  | rparen =>
    have hbelow := filter_isOpening_drop_outside stack
    rw [h, ← List.map_tail] at hbelow
    simp only [advance, trackOpen]
    cases hdrop : (outside stack).drop 1 with
    | nil =>
      rw [hdrop] at hbelow
      exact ⟨filter_isOpening_inside stack, hbelow⟩
    | cons top below =>
      rw [hdrop] at hbelow
      by_cases hfunc : top.kind = .func
      · have htop : isOpening top = false := by simp [isOpening, hfunc]
        simpa [hfunc, htop, filter_isOpening_inside] using hbelow
      · simpa [hfunc, filter_isOpening_inside] using hbelow

/-- The parentheses that are written are those that are never closed. -/
theorem filter_isOpening_reorderFrom (h : stack.filter isOpening = opened.map Prod.fst) (k : Nat) :
    (reorderFrom stack ts).filter isOpening =
      ((ts.zipIdx k).foldl trackOpen opened).map Prod.fst := by
  induction ts generalizing stack opened k with
  | nil => exact h
  | cons t ts ih =>
    obtain ⟨hout, hstack⟩ := filter_isOpening_advance h t k
    rw [reorderFrom_cons, List.filter_append, hout, List.nil_append, ih hstack, List.zipIdx_cons,
      List.foldl_cons]

/-- The parentheses of a plain formula in postfix order, the one opened last first. -/
theorem filter_isOpening_reorder (ts : List Token) :
    (reorderFrom [] ts).filter isOpening = (unclosed ts).map Prod.fst :=
  filter_isOpening_reorderFrom rfl 0

/-- No parenthesis is left open just if parentheses are closed by their number. -/
theorem unclosed_eq_nil_iff : unclosed ts = [] ↔ Token.Closed ts := by
  rw [← List.map_eq_nil_iff, ← filter_isOpening_reorder, List.filter_eq_nil_iff]
  simp only [(reorder_perm ts).mem_iff, Bool.not_eq_true]
  exact ⟨Token.closed_of_survivors, Token.isOpening_eq_false_of_closed⟩

/-- No tree is built where a parenthesis is never closed. -/
theorem ofPostfix_of_unclosed (h : unclosed ts ≠ []) :
    ∃ err, Expr.ofPostfix (reorderFrom [] ts) = .error err := by
  cases hbuild : Expr.ofPostfix (reorderFrom [] ts) with
  | error err => exact ⟨err, rfl⟩
  | ok e =>
    have hnone := isOpening_eq_false_of_postorder (Expr.ofPostfix_eq_ok_iff.1 hbuild).1
    have hfilter : (reorderFrom [] ts).filter isOpening = [] := by
      simpa [List.filter_eq_nil_iff] using hnone
    rw [filter_isOpening_reorder, List.map_eq_nil_iff] at hfilter
    exact absurd hfilter h

/-- **Tokens without marks are put into postfix order and conserved.**  What is written are the
tokens that are retained, each as often as it stands among them; numbers and variables keep their
order, and of the parentheses just those are written that are never closed.  If there is one, no
tree is built. -/
theorem reorder_conserves (h : ∀ t ∈ ts, isMark t = false) :
    ∃ ps, reorder ts = .ok ps ∧ ps.Perm (retained ts) ∧
      ps.filter Token.isOperand = ts.filter Token.isOperand ∧
      ps.filter isOpening = (unclosed ts).map Prod.fst ∧
      (unclosed ts ≠ [] → ∃ err, Expr.ofPostfix ps = .error err) := by
  refine ⟨reorderFrom [] ts, reorder_eq_ok_iff.2 ⟨h, rfl⟩, ?_, ?_, filter_isOpening_reorder ts,
    ofPostfix_of_unclosed⟩
  · rw [← Token.survivors_eq_retained h]
    exact reorder_perm ts
  · exact filter_isOperand_reorderFrom fun _ ht => absurd ht List.not_mem_nil

/-- In `)(sin(x),1` the first opening parenthesis is never closed, and the second one is. -/
theorem reorder_conserves_sin :
    ∃ ps, reorder [⟨.rparen, ")", 0⟩, ⟨.lparen, "(", 1⟩, ⟨.func, "sin", 2⟩, ⟨.lparen, "(", 5⟩,
        ⟨.var, "x", 6⟩, ⟨.rparen, ")", 7⟩, ⟨.comma, ",", 8⟩, ⟨.number, "1", 9⟩] = .ok ps ∧
      ps.Perm [⟨.lparen, "(", 1⟩, ⟨.func, "sin", 2⟩, ⟨.var, "x", 6⟩, ⟨.number, "1", 9⟩] ∧
      ps.filter Token.isOperand = [⟨.var, "x", 6⟩, ⟨.number, "1", 9⟩] ∧
      ps.filter isOpening = [⟨.lparen, "(", 1⟩] ∧ ∃ err, Expr.ofPostfix ps = .error err :=
  (reorder_conserves (by decide)).imp fun ps ⟨hps, hperm, hoperands, hopenings, herr⟩ =>
    ⟨hps, hperm, hoperands, hopenings, herr (by decide)⟩

end Postfix

end Formula
