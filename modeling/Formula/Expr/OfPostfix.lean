import Formula.Expr
import Formula.Number.Literal
import Formula.Token

/-!
# Building trees

`Expr.ofPostfix` builds a tree from tokens in postfix order with a stack of trees: a token takes
its operands from the stack and puts the tree that it forms in their place, and one tree is left
at the end.

No tree on the stack is higher than `Expr.maxHeight`.  The heights are kept on a stack of their own,
so that no tree is measured again: the height of a tree comes from as many entries of that stack as
its token has operands.

Each error is that of the first token that cannot be applied: a token that has no place in
postfix order, operands that are missing, a number without a value, or a tree that is too high.
-/

namespace Formula

/-- The reasons for which tokens in postfix order form no tree.  `index` counts the tokens. -/
inductive BuildError where
  /-- There are no tokens. -/
  | empty
  /-- The operands of the token are missing. -/
  | missingOperand (token : String) (index : Nat)
  /-- Several trees are left at the end. -/
  | leftover (trees : Nat)
  /-- The number has no value. -/
  | badNumber (text : String) (index : Nat)
  /-- The token has no place in postfix order. -/
  | misplaced (token : String) (index : Nat)
  /-- The tree that the token forms is too high. -/
  | tooHigh (index : Nat)
deriving DecidableEq, Repr

/-- The wording of an error in building a tree. -/
def BuildError.message : BuildError → String
  | empty => "empty expression"
  | missingOperand token index =>
    "insufficient operands for '" ++ token ++ "' at postfix index " ++ toString index
  | leftover trees => "malformed expression: expected 1 result, got " ++ toString trees
  | badNumber text index =>
    "invalid number '" ++ text ++ "' at postfix index " ++ toString index
  | misplaced token index =>
    "unexpected token '" ++ token ++ "' at postfix index " ++ toString index
  | tooHigh index =>
    "expression nests deeper than " ++ toString Expr.maxHeight ++ " levels at postfix index " ++
      toString index

/-- The number of operands that a token takes in postfix order. -/
def Token.arity (t : Token) : Nat :=
  match t.kind with
  | .sign _ | .func => 1
  | .arith _ | .compare _ => 2
  | .choice => 3
  | _ => 0

namespace Expr

/-- The tree that the token number `index` forms, and the stack without its operands. -/
def reduce (index : Nat) (t : Token) (stack : List Expr) : Except BuildError (Expr × List Expr) :=
  match t.kind, stack with
  | .number, stack =>
    match Number.literal? t.text with
    | some v => .ok (num v, stack)
    | none => .error (.badNumber t.text index)
  | .var, stack => .ok (var t.text, stack)
  | .sign s, x :: stack => .ok (signed s x, stack)
  | .func, x :: stack => .ok (call t.text [x], stack)
  | .arith op, r :: l :: stack => .ok (arith op l r, stack)
  | .compare op, r :: l :: stack => .ok (compare op l r, stack)
  | .choice, e :: y :: c :: stack => .ok (choice c y e, stack)
  | .sign _, _ | .func, _ | .arith _, _ | .compare _, _ | .choice, _ =>
    .error (.missingOperand t.text index)
  | .lparen, _ | .rparen, _ | .comma, _ | .question, _ | .colon, _ =>
    .error (.misplaced t.text index)

/-- The trees that tokens have formed, the latest first, and their heights beside them. -/
structure Forest where
  trees : List Expr
  heights : List Nat

/-- The stacks after the token number `index`. -/
def step (index : Nat) (t : Token) (f : Forest) : Except BuildError Forest := do
  let (e, rest) ← reduce index t f.trees
  let height := 1 + (f.heights.take t.arity).max?.getD 0
  if height ≤ maxHeight then return ⟨e :: rest, height :: f.heights.drop t.arity⟩
  else throw (.tooHigh index)

/-- The stacks after the tokens, the first of which has the number `index`. -/
def run (index : Nat) (f : Forest) : List Token → Except BuildError Forest
  | [] => return f
  | t :: ts => do run (index + 1) (← step index t f) ts

theorem run_append (index : Nat) (f : Forest) (ts us : List Token) :
    run index f (ts ++ us) = (run index f ts).bind fun f => run (index + ts.length) f us := by
  induction ts generalizing index f with
  | nil => rfl
  | cons t ts ih =>
    simp only [List.cons_append, run, List.length_cons]
    cases step index t f with
    | error e => rfl
    | ok f =>
      simp only [bind, Except.bind] at *
      rw [ih, Nat.add_right_comm, Nat.add_assoc]

/-- The tree of tokens in postfix order. -/
def ofPostfix (ts : List Token) : Except BuildError Expr :=
  if ts = [] then throw .empty
  else do
    match (← run 0 ⟨[], []⟩ ts).trees with
    | [e] => return e
    | trees => throw (.leftover trees.length)

end Expr

end Formula
