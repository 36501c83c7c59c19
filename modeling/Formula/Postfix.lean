import Formula.Token.Conditional
import Formula.Token.Sign

/-!
# Postfix order

In postfix order every operator follows its operands, so that no parentheses are needed.
`Postfix.reorder` puts a plain formula into postfix order with a stack of the operators whose
right operand is still to come; `Postfix.ofTokens` marks the signs, cuts a conditional into its
parts and puts each part into postfix order by itself.

* Binary operators associate to the left and signs to the right; a sign binds tighter than any
  operator (`Postfix.precedence`, `Postfix.precedes`).
* A function is applied when the parenthesis that opens its argument is closed.
* Nothing is refused for lack of a parenthesis or an operand.  A closing parenthesis that has
  nothing to close is dropped, an opening one that is never closed stays among the tokens, and
  operands that are missing go unnoticed until the tree is built.
* Each part of a conditional has to leave one value (`Postfix.valueCount`), or its operands
  would be taken from a neighbouring part.
* The only tokens that are made here are signs and the mark that stands for a conditional
  (`Postfix.mem_of_ofTokens`).
-/

namespace Formula

namespace Postfix

open Token (Kind)

/-- The binding strength of a kind of token.  The stronger operator takes its operands first. -/
def precedence : Kind → Int
  | .choice | .question | .colon => -1
  | .compare _ => 0
  | .arith .add | .arith .sub => 1
  | .arith .mul | .arith .div => 2
  | .arith .pow => 3
  | .sign _ => 4
  | _ => 0

/-- The operator `top`, which waits on the stack, takes its operands before the operator `next`.  A
sign that comes next has its operand still to come, so that only a stronger operator precedes it. -/
def precedes (top next : Kind) : Bool :=
  match top, next with
  | .lparen, _ | .func, _ => false
  | _, .sign _ => precedence next < precedence top
  | _, _ => precedence next ≤ precedence top

/-- The part of the stack that is above the latest opening parenthesis. -/
def inside (stack : List Token) : List Token := stack.takeWhile (·.kind ≠ .lparen)

/-- The part of the stack from the latest opening parenthesis down. -/
def outside (stack : List Token) : List Token := stack.dropWhile (·.kind ≠ .lparen)

@[simp]
theorem inside_append_outside (stack : List Token) : inside stack ++ outside stack = stack :=
  List.takeWhile_append_dropWhile

/-- A plain formula in postfix order, where `stack` holds the operators, functions and opening
parentheses that wait, the latest first.  A mark of a conditional is passed over. -/
def reorderFrom (stack : List Token) : List Token → List Token
  | [] => stack
  | t :: ts =>
    match t.kind with
    | .number | .var => t :: reorderFrom stack ts
    | .func | .lparen => reorderFrom (t :: stack) ts
    | .comma => inside stack ++ reorderFrom (outside stack) ts
    | .arith _ | .sign _ | .compare _ =>
      stack.takeWhile (fun top => precedes top.kind t.kind) ++
        reorderFrom (t :: stack.dropWhile fun top => precedes top.kind t.kind) ts
    | .rparen =>
      inside stack ++
        match (outside stack).drop 1 with
        | [] => reorderFrom [] ts
        | top :: below =>
          if top.kind = .func then top :: reorderFrom below ts
          else reorderFrom (top :: below) ts
    | .question | .colon | .choice => reorderFrom stack ts

/-- A mark of a conditional. -/
def isMark (t : Token) : Bool := t.kind = .question || t.kind = .colon || t.kind = .choice

/-- A plain formula in postfix order. -/
def reorder (ts : List Token) : Except ConditionalError (List Token) :=
  match ts.find? isMark with
  | some t => .error (.strayMark t.text t.pos)
  | none => .ok (reorderFrom [] ts)

/-- The number of operands that a token takes in postfix order, for the tokens of a plain
formula. -/
def operandCount? : Kind → Option Nat
  | .number | .var => some 0
  | .sign _ | .func => some 1
  | .arith _ | .compare _ => some 2
  | _ => none

/-- The number of values on the stack after a token, which takes its operands from them and leaves
one value; none if operands are missing. -/
def countValue (values : Nat) (t : Token) : Option Nat :=
  match operandCount? t.kind with
  | some n => if n ≤ values then some (values - n + 1) else none
  | none => none

/-- The number of values that tokens in postfix order leave; none if operands are missing. -/
def valueCount (ts : List Token) : Option Nat := ts.foldlM countValue 0

/-- A part of the conditional at `pos` in postfix order. -/
def part (pos : Nat) (ts : List Token) : Except ConditionalError (List Token) :=
  match reorder ts with
  | .error e => .error e
  | .ok ps => if valueCount ps = some 1 then .ok ps else .error (.malformedPart pos)

/-- A formula in postfix order. -/
def ofTokens (ts : List Token) : Except ConditionalError (List Token) := do
  match ← Token.split (Token.markSigns ts) with
  | .plain ts => reorder ts
  | .conditional test yes no choice =>
    let test ← part choice.pos test
    let yes ← part choice.pos yes
    let no ← part choice.pos no
    return test ++ yes ++ no ++ [choice]

variable {stack ts ps : List Token} {t : Token}

theorem mem_of_mem_takeWhile {p : Token → Bool} (h : t ∈ stack.takeWhile p) : t ∈ stack :=
  (List.takeWhile_sublist p).mem h

theorem mem_of_mem_dropWhile {p : Token → Bool} (h : t ∈ stack.dropWhile p) : t ∈ stack :=
  (List.dropWhile_sublist p).mem h

/-- The tokens in postfix order are tokens of the formula. -/
theorem mem_reorderFrom (h : t ∈ reorderFrom stack ts) : t ∈ stack ∨ t ∈ ts := by
  induction ts generalizing stack with
  | nil => exact .inl h
  | cons u us ih =>
    unfold reorderFrom at h
    split at h
    all_goals grind [inside, outside, → mem_of_mem_takeWhile, → mem_of_mem_dropWhile]

theorem isMark_eq_false_iff :
    isMark t = false ↔ t.kind ≠ .question ∧ t.kind ≠ .colon ∧ t.kind ≠ .choice := by
  simp [isMark, and_assoc]

theorem reorder_eq_ok_iff :
    reorder ts = .ok ps ↔ (∀ t ∈ ts, isMark t = false) ∧ ps = reorderFrom [] ts := by
  have hfind : ts.find? isMark = none ↔ ∀ t ∈ ts, isMark t = false := by
    simp only [List.find?_eq_none, Bool.not_eq_true]
  unfold reorder
  split
  · rename_i t ht
    rw [← hfind, ht]
    simp
  · rename_i hnone
    rw [Except.ok.injEq, and_iff_right (hfind.1 hnone)]
    exact eq_comm

theorem part_eq_ok_iff {pos : Nat} :
    part pos ts = .ok ps ↔ reorder ts = .ok ps ∧ valueCount ps = some 1 := by
  unfold part
  split
  · simp [*]
  · split <;> simp [*] <;> grind

/-- What is put into postfix order has no marks, or is a conditional that is put into postfix order
part by part. -/
theorem ofTokens_cases (h : ofTokens ts = .ok ps) :
    reorder (Token.markSigns ts) = .ok ps ∨
      ∃ cs q ys k ns, Token.markSigns ts = cs ++ q :: (ys ++ k :: ns) ∧ q.kind = .question ∧
        k.kind = .colon ∧ ∃ pc py pn, part q.pos cs = .ok pc ∧ part q.pos ys = .ok py ∧
          part q.pos ns = .ok pn ∧ ps = pc ++ py ++ pn ++ [Token.choiceAt q.pos] := by
  unfold ofTokens at h
  simp only [bind, Except.bind] at h
  split at h
  · cases h
  · rename_i parts hparts
    obtain rfl | ⟨cs, q, ys, k, ns, hts, hq, hk, rfl⟩ := Token.split_cases hparts
    · exact .inl h
    · simp only [show (Token.choiceAt q.pos).pos = q.pos from rfl] at h
      split at h <;> try cases h
      split at h <;> try cases h
      split at h <;> try cases h
      exact .inr ⟨cs, q, ys, k, ns, hts, hq, hk, _, _, _, ‹_›, ‹_›, ‹_›, rfl⟩

theorem mem_of_reorder (h : reorder ts = .ok ps) (ht : t ∈ ps) : t ∈ ts := by
  obtain ⟨-, rfl⟩ := reorder_eq_ok_iff.1 h
  exact (mem_reorderFrom ht).resolve_left List.not_mem_nil

/-- A plain formula has no conditional. -/
theorem ne_choice_of_reorder (h : reorder ts = .ok ps) : ∀ t ∈ ps, t.kind ≠ .choice := by
  intro t ht
  have hmark := (reorder_eq_ok_iff.1 h).1 t (mem_of_reorder h ht)
  exact (isMark_eq_false_iff.1 hmark).2.2

/-- The tokens in postfix order are tokens of the formula, or signs, or the mark that stands for a
conditional. -/
theorem mem_of_ofTokens (h : ofTokens ts = .ok ps) (ht : t ∈ ps) :
    t ∈ ts ∨ (∃ s, t.kind = .sign s) ∨ t.kind = .choice := by
  have hmarked (ht : t ∈ Token.markSigns ts) :
      t ∈ ts ∨ (∃ s, t.kind = .sign s) ∨ t.kind = .choice :=
    (Token.mem_markSignsFrom ht).imp_right .inl
  obtain h | ⟨cs, q, ys, k, ns, hts, -, -, pc, py, pn, hc, hy, hn, rfl⟩ := ofTokens_cases h
  · exact hmarked (mem_of_reorder h ht)
  · have hc := (part_eq_ok_iff.1 hc).1
    have hy := (part_eq_ok_iff.1 hy).1
    have hn := (part_eq_ok_iff.1 hn).1
    rw [hts] at hmarked
    simp only [List.mem_append, List.mem_singleton] at ht
    rcases ht with ((ht | ht) | ht) | rfl
    · exact hmarked (by simp [mem_of_reorder hc ht])
    · exact hmarked (by simp [mem_of_reorder hy ht])
    · exact hmarked (by simp [mem_of_reorder hn ht])
    · exact .inr (.inr rfl)

end Postfix

end Formula
