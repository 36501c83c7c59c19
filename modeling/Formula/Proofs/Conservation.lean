import Mathlib.Data.List.TakeWhile
import Formula.Proofs.Nodes

/-!
# Putting tokens into postfix order loses nothing

The machine that puts tokens into postfix order takes them from the stack by four rules: for an
operator, for a comma, for a closing parenthesis with the function above it, and at the end.  On any
tokens, well-formed or not, none of the rules loses a token or writes one twice.

* `Token.survivors` are the tokens that stay: all but the commas, the marks, the closing parentheses
  and the opening ones that are closed.  A closing parenthesis closes the latest opening one, so
  that reading from the end it is enough to count (`Token.surplus`) the closing ones that are left.
* `Postfix.advance` is what the machine does with one token, and `Postfix.closeOpen` takes away from
  the stack the parentheses that are closed later.
* **`Postfix.advance_perm`** is the invariant for one token, and **`Postfix.reorderFrom_perm`** for
  a run: what is written are the tokens that stay and what waited on the stack.
* `Postfix.filter_isOperand_reorderFrom`: operands stay in order.
* `Token.apply_mark`: marking signs changes nothing but which operators are signs, so that as many
  tokens of other kinds are counted (`Token.countP_markSignsFrom`).
-/

namespace Formula

open Token (Kind)

namespace Token

/-- The number of closing parentheses without an opening one, once `t` stands in front of tokens
with `n` of them. -/
def unopened (n : Nat) (t : Token) : Nat :=
  match t.kind with
  | .lparen => n - 1
  | .rparen => n + 1
  | _ => n

/-- The number of closing parentheses for which the tokens have no opening one. -/
def surplus : List Token → Nat
  | [] => 0
  | t :: ts => t.unopened (surplus ts)

/-- The token is kept in postfix order, where `n` closing parentheses after it are left to close
it. -/
def isKept (n : Nat) (t : Token) : Bool :=
  match t.kind with
  | .lparen => n = 0
  | .rparen | .comma | .question | .colon | .choice => false
  | _ => true

/-- The tokens without parentheses that belong together, closing ones without an opening one,
commas and marks. -/
def survivors : List Token → List Token
  | [] => []
  | t :: ts => [t].filter (isKept (surplus ts)) ++ survivors ts

end Token

namespace Postfix

open Token (surplus survivors)

/-- What the machine writes when it reads a token, and the stack after that. -/
def advance (t : Token) (stack : List Token) : List Token × List Token :=
  match t.kind with
  | .number | .var => ([t], stack)
  | .func | .lparen => ([], t :: stack)
  | .comma => (inside stack, outside stack)
  | .arith _ | .sign _ | .compare _ =>
    (stack.takeWhile fun top => precedes top.kind t.kind,
      t :: stack.dropWhile fun top => precedes top.kind t.kind)
  | .rparen =>
    match (outside stack).drop 1 with
    | [] => (inside stack, [])
    | top :: below =>
      if top.kind = .func then (inside stack ++ [top], below) else (inside stack, top :: below)
  | .question | .colon | .choice => ([], stack)

variable {t l : Token} {stack us ts : List Token} {n : Nat}

theorem reorderFrom_cons (t : Token) (stack ts : List Token) :
    reorderFrom stack (t :: ts) = (advance t stack).1 ++ reorderFrom (advance t stack).2 ts := by
  obtain ⟨kind, text, pos⟩ := t
  cases kind with
  | rparen =>
    simp only [reorderFrom, advance]
    cases (outside stack).drop 1 with
    | nil => rfl
    | cons top below =>
      by_cases h : top.kind = .func
      · simp [h]
      · simp [h]
  | _ => rfl

/-! ### Parentheses on the stack -/

/-- The stack once its latest `n` opening parentheses have been closed. -/
def closeOpen : Nat → List Token → List Token
  | 0, stack => stack
  | n + 1, stack => inside stack ++ closeOpen n ((outside stack).drop 1)

theorem closeOpen_append (h : ∀ t ∈ us, t.kind ≠ .lparen) (n : Nat) (stack : List Token) :
    closeOpen n (us ++ stack) = us ++ closeOpen n stack := by
  have hus : ∀ t ∈ us, decide (t.kind ≠ .lparen) = true := fun t ht => decide_eq_true (h t ht)
  cases n with
  | zero => rfl
  | succ n =>
    simp only [closeOpen, inside, outside]
    rw [List.takeWhile_append_of_pos hus, List.dropWhile_append_of_pos hus, List.append_assoc]

theorem closeOpen_cons (h : t.kind ≠ .lparen) (n : Nat) (stack : List Token) :
    closeOpen n (t :: stack) = t :: closeOpen n stack := by
  have ht : ∀ u ∈ [t], u.kind ≠ .lparen := by simpa using h
  exact closeOpen_append ht n stack

theorem closeOpen_lparen (h : t.kind = .lparen) (n : Nat) (stack : List Token) :
    closeOpen (n + 1) (t :: stack) = closeOpen n stack := by
  simp [closeOpen, inside, outside, h]

theorem closeOpen_nil (n : Nat) : closeOpen n [] = [] := by
  induction n with
  | zero => rfl
  | succ n ih => exact ih

theorem ne_lparen_of_mem_inside (h : t ∈ inside stack) : t.kind ≠ .lparen := by
  simpa using List.mem_takeWhile_imp h

theorem ne_lparen_of_precedes {k : Kind} (h : precedes t.kind k = true) : t.kind ≠ .lparen := by
  intro hk
  rw [hk] at h
  cases h

theorem inside_append_closeOpen (n : Nat) (stack : List Token) :
    inside stack ++ closeOpen n (outside stack) = closeOpen n stack := by
  rw [← closeOpen_append (fun _ => ne_lparen_of_mem_inside), inside_append_outside]

/-- The operators that are taken from the stack lie above its opening parentheses. -/
theorem takeWhile_append_closeOpen (k : Kind) (n : Nat) (stack : List Token) :
    stack.takeWhile (fun top => precedes top.kind k) ++
      closeOpen n (stack.dropWhile fun top => precedes top.kind k) = closeOpen n stack := by
  have htake : ∀ top ∈ stack.takeWhile (fun top => precedes top.kind k), top.kind ≠ .lparen := by
    intro top htop
    have hpre : precedes top.kind k = true := by simpa using List.mem_takeWhile_imp htop
    exact ne_lparen_of_precedes hpre
  rw [← closeOpen_append htake, List.takeWhile_append_dropWhile]

/-! ### One token -/

/-- **A token is neither lost nor doubled when it is read.**  What is written and what waits on the
stack are the token and what waited before, without the parentheses that are closed. -/
theorem advance_perm (t : Token) (stack : List Token) (n : Nat) :
    ((advance t stack).1 ++ closeOpen n (advance t stack).2).Perm
      ([t].filter (Token.isKept n) ++ closeOpen (t.unopened n) stack) := by
  obtain ⟨kind, text, pos⟩ := t
  cases kind with
  | number | var | question | colon | choice => exact .refl _
  | func => exact .of_eq (closeOpen_cons (by simp) n stack)
  | lparen =>
    cases n with
    | zero => exact .refl _
    | succ n => exact .of_eq (closeOpen_lparen rfl n stack)
  | comma => exact .of_eq (inside_append_closeOpen n stack)
  | arith _ | sign _ | compare _ =>
    simp only [advance]
    rw [closeOpen_cons (by simp)]
    refine List.perm_middle.trans ?_
    rw [takeWhile_append_closeOpen]
    exact .refl _
  | rparen =>
    -- one more opening parenthesis of the stack is closed, and a function above it is written
    show List.Perm _ (inside stack ++ closeOpen n ((outside stack).drop 1))
    cases hbelow : (outside stack).drop 1 with
    | nil =>
      simp only [advance, hbelow]
      exact .refl _
    | cons top below =>
      by_cases hfunc : top.kind = .func
      · rw [closeOpen_cons (by simp [hfunc])]
        simp only [advance, hbelow, hfunc, ↓reduceIte, List.append_assoc]
        exact .refl _
      · simp only [advance, hbelow, hfunc, ↓reduceIte]
        exact .refl _

/-! ### All tokens -/

/-- **Tokens are neither lost nor doubled.**  What is written are the tokens that stay and what
waited on the stack, without the parentheses that are closed. -/
theorem reorderFrom_perm (stack ts : List Token) :
    (reorderFrom stack ts).Perm (survivors ts ++ closeOpen (surplus ts) stack) := by
  induction ts generalizing stack with
  | nil => exact .refl _
  | cons t ts ih =>
    rw [reorderFrom_cons]
    calc List.Perm _ ((advance t stack).1 ++
          (survivors ts ++ closeOpen (surplus ts) (advance t stack).2)) := (ih _).append_left _
      List.Perm _ (survivors ts ++
          ((advance t stack).1 ++ closeOpen (surplus ts) (advance t stack).2)) :=
        List.perm_append_comm_assoc ..
      List.Perm _ (survivors ts ++
          ([t].filter (Token.isKept (surplus ts)) ++ closeOpen (surplus (t :: ts)) stack)) :=
        (advance_perm t stack _).append_left _
      List.Perm _ ([t].filter (Token.isKept (surplus ts)) ++
          (survivors ts ++ closeOpen (surplus (t :: ts)) stack)) :=
        List.perm_append_comm_assoc ..
      _ = survivors (t :: ts) ++ closeOpen (surplus (t :: ts)) stack := by
        rw [survivors, List.append_assoc]

/-- A plain formula in postfix order has the tokens that stay. -/
theorem reorder_perm (ts : List Token) : (reorderFrom [] ts).Perm (survivors ts) := by
  have hperm := reorderFrom_perm [] ts
  rwa [closeOpen_nil, List.append_nil] at hperm

/-! ### Operands keep their order -/

theorem mem_of_mem_closeOpen (h : t ∈ closeOpen n stack) : t ∈ stack := by
  induction n generalizing stack with
  | zero => exact h
  | succ n ih =>
    rcases List.mem_append.1 h with h | h
    · exact mem_of_mem_takeWhile h
    · exact mem_of_mem_dropWhile (List.mem_of_mem_drop (ih h))

/-- What is written or waits is the token, or waited before. -/
theorem mem_advance {u : Token} (h : u ∈ (advance t stack).1 ++ (advance t stack).2) :
    u = t ∨ u ∈ stack := by
  have h := (advance_perm t stack 0).subset h
  rcases List.mem_append.1 h with h | h
  · exact .inl (List.mem_singleton.1 (List.mem_filter.1 h).1)
  · exact .inr (mem_of_mem_closeOpen h)

/-- Operands are written at once and never wait. -/
theorem advance_operand (ht : t.isOperand = true) : advance t stack = ([t], stack) := by
  obtain ⟨kind, text, pos⟩ := t
  cases kind with
  | number | var => rfl
  | _ => cases ht

theorem filter_isOperand_reorderFrom (h : ∀ t ∈ stack, t.isOperand = false) :
    (reorderFrom stack ts).filter Token.isOperand = ts.filter Token.isOperand := by
  induction ts generalizing stack with
  | nil => simpa [reorderFrom, List.filter_eq_nil_iff] using h
  | cons t ts ih =>
    rw [reorderFrom_cons]
    cases ht : t.isOperand with
    | true => simp [advance_operand ht, ht, ih h]
    | false =>
      have hall : ∀ u ∈ (advance t stack).1 ++ (advance t stack).2, u.isOperand = false := by
        intro u hu
        rcases mem_advance hu with rfl | hu
        · exact ht
        · exact h u hu
      rw [List.forall_mem_append] at hall
      have hout : (advance t stack).1.filter Token.isOperand = [] := by
        simpa [List.filter_eq_nil_iff] using hall.1
      rw [List.filter_append, hout, ih hall.2, List.nil_append, List.filter_cons_of_neg (by simp [ht])]

end Postfix

namespace Token

variable {t : Token} {due : Bool} {ts : List Token}

/-! ### Signs -/

/-- Marking changes no tokens but operators, and makes them signs. -/
theorem mark_cases (due : Bool) (t : Token) :
    t.mark due = t ∨ (∃ op, t.kind = .arith op) ∧ ∃ s, (t.mark due).kind = .sign s := by
  obtain ⟨kind, text, pos⟩ := t
  cases due with
  | false => exact .inl rfl
  | true =>
    cases kind with
    | arith op =>
      cases op with
      | add => exact .inr ⟨⟨_, rfl⟩, _, rfl⟩
      | sub => exact .inr ⟨⟨_, rfl⟩, _, rfl⟩
      | _ => exact .inl rfl
    | _ => exact .inl rfl

/-- What does not tell signs from operators is the same after marking. -/
theorem apply_mark {α : Type} {f : Token → α}
    (hf : ∀ {t u : Token} {op s}, t.kind = .arith op → u.kind = .sign s → f u = f t) (due : Bool)
    (t : Token) : f (t.mark due) = f t := by
  rcases mark_cases due t with h | ⟨⟨op, hop⟩, s, hs⟩
  · rw [h]
  · exact hf hop hs

theorem isOperand_mark (due : Bool) (t : Token) : (t.mark due).isOperand = t.isOperand :=
  apply_mark (fun ht hu => by simp [isOperand, ht, hu]) due t

theorem isOperator_mark (due : Bool) (t : Token) : (t.mark due).isOperator = t.isOperator :=
  apply_mark (fun ht hu => by simp [isOperator, ht, hu]) due t

/-- Marking changes no operand. -/
theorem filter_isOperand_markSignsFrom (due : Bool) (ts : List Token) :
    (markSignsFrom due ts).filter isOperand = ts.filter isOperand := by
  induction ts generalizing due with
  | nil => rfl
  | cons t ts ih =>
    rw [markSignsFrom, List.filter_cons, List.filter_cons, isOperand_mark, ih]
    rcases mark_cases due t with h | ⟨⟨op, hop⟩, -⟩
    · rw [h]
    · simp [isOperand, hop]

/-- Marking keeps the number of tokens of a kind if it does not tell signs from operators. -/
theorem countP_markSignsFrom {p : Token → Bool} (hp : ∀ due t, p (t.mark due) = p t) (due : Bool)
    (ts : List Token) : (markSignsFrom due ts).countP p = ts.countP p := by
  induction ts generalizing due with
  | nil => rfl
  | cons t ts ih => rw [markSignsFrom, List.countP_cons, List.countP_cons, hp, ih]

/-! ### Operators stay -/

/-- An operator is kept. -/
theorem isKept_of_isOperator (h : t.isOperator = true) (n : Nat) :
    t.isKept n = true := by
  obtain ⟨kind, text, pos⟩ := t
  cases kind with
  | arith _ | sign _ | compare _ | func => rfl
  | _ => cases h

theorem filter_isOperator_survivors (ts : List Token) :
    (survivors ts).filter isOperator = ts.filter isOperator := by
  induction ts with
  | nil => rfl
  | cons t ts ih =>
    rw [survivors, List.filter_append, ih, List.filter_cons]
    cases ht : t.isOperator with
    | true => simp [ht, isKept_of_isOperator ht]
    | false => cases t.isKept (surplus ts) <;> simp [ht]

end Token

end Formula
