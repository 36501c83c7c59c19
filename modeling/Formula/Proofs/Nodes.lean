import Formula.Expr.Shape
import Formula.Proofs.Postorder

/-!
# The nodes of a tree

`Expr.nodes` lists the nodes of a tree in post-order, operands from left to right and then their
operator.  It forgets how the nodes hang together, and keeps what each of them is.

* `Expr.length_nodes`: the size of a tree is the number of its nodes.
* `Expr.var_mem_nodes_iff`: the variables of a tree are the names of its nodes.
* `Expr.leaves` and `Expr.operations` are the nodes without and with operands.
* `Token.node?` is the node that a token in postfix order stands for, and `Postorder.map_node?` says
  that the tokens which list a tree stand for its nodes one by one.
-/

namespace Formula

/-- What a node of a tree is, without its operands. -/
inductive Node where
  | num (value : Float)
  | var (name : String)
  | signed (s : Sign)
  | arith (op : Arith)
  | compare (op : Comparison)
  | choice
  /-- A call of the function with so many arguments. -/
  | call (name : String) (args : Nat)
deriving DecidableEq, Repr

/-- The node has no operands. -/
def Node.isLeaf : Node → Bool
  | num _ | var _ => true
  | _ => false

namespace Expr

mutual

/-- The nodes of the tree in post-order. -/
def nodes : Expr → List Node
  | num v => [.num v]
  | var n => [.var n]
  | signed s x => x.nodes ++ [.signed s]
  | arith op l r => l.nodes ++ r.nodes ++ [.arith op]
  | compare op l r => l.nodes ++ r.nodes ++ [.compare op]
  | choice c t e => c.nodes ++ t.nodes ++ e.nodes ++ [.choice]
  | call name args => nodesAll args ++ [.call name args.length]

/-- The nodes of several trees. -/
def nodesAll : List Expr → List Node
  | [] => []
  | x :: xs => x.nodes ++ nodesAll xs

end

/-- The nodes without operands, from left to right. -/
def leaves (e : Expr) : List Node := e.nodes.filter (·.isLeaf)

/-- The nodes with operands. -/
def operations (e : Expr) : List Node := e.nodes.filter (!·.isLeaf)

variable {e : Expr} {n : String} {m : Node} {L : Leaves}

theorem length_nodesAll {xs : List Expr} (h : ∀ x ∈ xs, x.nodes.length = x.size) :
    (nodesAll xs).length = sizeAll xs := by
  induction xs with
  | nil => rfl
  | cons x xs ih =>
    obtain ⟨hx, hxs⟩ := List.forall_mem_cons.1 h
    rw [nodesAll, sizeAll, List.length_append, hx, ih hxs]

/-- The size of a tree is the number of its nodes. -/
theorem length_nodes (e : Expr) : e.nodes.length = e.size := by
  induction e with
  | num v | var n => rfl
  | signed s x ih =>
    simp only [nodes, size, List.length_append, List.length_singleton, ih]
    omega
  | arith op l r ihl ihr | compare op l r ihl ihr =>
    simp only [nodes, size, List.length_append, List.length_singleton, ihl, ihr]
    omega
  | choice c t e ihc iht ihe =>
    simp only [nodes, size, List.length_append, List.length_singleton, ihc, iht, ihe]
    omega
  | call name args ih =>
    simp only [nodes, size, List.length_append, List.length_singleton, length_nodesAll ih]
    omega

theorem size_eq_add (e : Expr) : e.size = e.leaves.length + e.operations.length := by
  rw [← length_nodes, leaves, operations, List.length_eq_countP_add_countP (·.isLeaf),
    List.countP_eq_length_filter, List.countP_eq_length_filter]
  simp

theorem mem_nodesAll {xs : List Expr} : m ∈ nodesAll xs ↔ ∃ x ∈ xs, m ∈ x.nodes := by
  induction xs with
  | nil => simp [nodesAll]
  | cons x xs ih =>
    simp only [nodesAll, List.mem_append, ih, List.mem_cons, or_and_right, exists_or,
      exists_eq_left]

theorem mem_nodes_call {name : String} {args : List Expr} :
    m ∈ (call name args).nodes ↔ (∃ x ∈ args, m ∈ x.nodes) ∨ m = .call name args.length := by
  rw [nodes, List.mem_append, mem_nodesAll, List.mem_singleton]

/-- The variables of a tree are the names of its nodes. -/
theorem var_mem_nodes_iff (e : Expr) : .var n ∈ e.nodes ↔ n ∈ e.vars := by
  induction e with
  | num v => simp [nodes]
  | var m => simp [nodes]
  | signed s x ih => simpa [nodes] using ih
  | arith op l r ihl ihr | compare op l r ihl ihr => simp [nodes, ihl, ihr]
  | choice c t e ihc iht ihe => simp [nodes, ihc, iht, ihe]
  | call name args ih =>
    simp only [mem_nodes_call, reduceCtorEq, or_false, mem_vars_call]
    exact exists_congr fun x => and_congr_right fun hx => ih x hx

/-- The functions of a plain tree have one argument. -/
theorem Plain.of_call_mem_nodes {name : String} {args : Nat} (h : Plain L e)
    (hm : .call name args ∈ e.nodes) : L.func name ∧ args = 1 := by
  induction h with
  | num _ | var _ => simp [nodes] at hm
  | signed _ ih => exact ih (by simpa [nodes] using hm)
  | arith _ _ ihl ihr | compare _ _ ihl ihr =>
    simp only [nodes, List.mem_append, List.mem_singleton, reduceCtorEq, or_false] at hm
    exact hm.elim ihl ihr
  | call hfunc _ ih =>
    rw [mem_nodes_call] at hm
    rcases hm with ⟨x, hx, hm⟩ | hm
    · rw [List.mem_singleton.1 hx] at hm
      exact ih hm
    · cases hm
      exact ⟨hfunc, rfl⟩

theorem Shaped.of_call_mem_nodes {name : String} {args : Nat} (h : Shaped L e)
    (hm : .call name args ∈ e.nodes) : L.func name ∧ args = 1 := by
  cases h with
  | plain h => exact h.of_call_mem_nodes hm
  | choice hc ht he =>
    simp only [nodes, List.mem_append, List.mem_singleton, reduceCtorEq, or_false] at hm
    rcases hm with (hm | hm) | hm
    · exact hc.of_call_mem_nodes hm
    · exact ht.of_call_mem_nodes hm
    · exact he.of_call_mem_nodes hm

end Expr

/-! ### Tokens and nodes -/

namespace Token

/-- The token is a number or a variable. -/
def isOperand (t : Token) : Bool :=
  match t.kind with
  | .number | .var => true
  | _ => false

/-- The token is an operator, a sign, a comparison or a function. -/
def isOperator (t : Token) : Bool :=
  match t.kind with
  | .arith _ | .sign _ | .compare _ | .func => true
  | _ => false

/-- The token is a parenthesis, a comma or a colon. -/
def isPunctuation (t : Token) : Bool :=
  match t.kind with
  | .lparen | .rparen | .comma | .colon => true
  | _ => false

/-- The node that the token stands for in postfix order, if it stands for one.  A number without a
value does not. -/
def node? (t : Token) : Option Node :=
  match t.kind with
  | .number => (Number.literal? t.text).map .num
  | .var => some (.var t.text)
  | .func => some (.call t.text 1)
  | .arith op => some (.arith op)
  | .sign s => some (.signed s)
  | .compare op => some (.compare op)
  | .choice => some .choice
  | .lparen | .rparen | .comma | .question | .colon => none

variable {t : Token} {m : Node}

/-- The operands stand for the leaves. -/
theorem isLeaf_of_node? (h : t.node? = some m) : m.isLeaf = t.isOperand := by
  obtain ⟨kind, text, pos⟩ := t
  cases kind with
  | number =>
    obtain ⟨v, -, rfl⟩ := Option.map_eq_some_iff.1 h
    rfl
  | _ => cases h <;> rfl

/-- The operators stand for the nodes with operands, and so does the mark of a conditional. -/
theorem not_isLeaf_of_node? (h : t.node? = some m) :
    (!m.isLeaf) = (t.isOperator || t.kind = .choice) := by
  obtain ⟨kind, text, pos⟩ := t
  cases kind with
  | number =>
    obtain ⟨v, -, rfl⟩ := Option.map_eq_some_iff.1 h
    rfl
  | _ => cases h <;> rfl

end Token

namespace Postorder

variable {ts : List Token} {e : Expr}

/-- The tokens that list a tree stand for its nodes. -/
theorem map_node? (h : Postorder ts e) : ts.map Token.node? = e.nodes.map some := by
  induction h with
  | number hk hv => simp [Token.node?, Expr.nodes, hk, hv]
  | var hk => simp [Token.node?, Expr.nodes, hk]
  | signed hk _ ih => simp [Token.node?, Expr.nodes, hk, ih]
  | arith hk _ _ ihl ihr | compare hk _ _ ihl ihr =>
    simp [Token.node?, Expr.nodes, hk, ihl, ihr]
  | choice hk _ _ _ ihc ihy ihn => simp [Token.node?, Expr.nodes, hk, ihc, ihy, ihn]
  | call hk _ ih => simp [Token.node?, Expr.nodes, Expr.nodesAll, hk, ih]

/-- Each of the tokens stands for a node of the tree. -/
theorem exists_node? (h : Postorder ts e) : ∀ t ∈ ts, ∃ m, t.node? = some m := by
  intro t ht
  obtain ⟨m, -, hm⟩ := List.mem_map.1 (h.map_node? ▸ List.mem_map_of_mem ht)
  exact ⟨m, hm.symm⟩

/-- Some of the tokens stand for some of the nodes, one by one. -/
theorem map_node?_filter {p : Token → Bool} {q : Node → Bool} (h : Postorder ts e)
    (hpq : ∀ t m, t.node? = some m → q m = p t) :
    (ts.filter p).map Token.node? = (e.nodes.filter q).map some := by
  have hp : ∀ t ∈ ts, p t = t.node?.any q := by
    intro t ht
    obtain ⟨m, hm⟩ := h.exists_node? t ht
    rw [hm, Option.any_some, hpq t m hm]
  calc (ts.filter p).map Token.node?
      = (ts.map Token.node?).filter (·.any q) := by
        rw [List.filter_map, List.filter_congr hp]
        rfl
    _ = (e.nodes.filter q).map some := by
        rw [h.map_node?, List.filter_map]
        rfl

theorem map_leaves (h : Postorder ts e) :
    (ts.filter Token.isOperand).map Token.node? = e.leaves.map some :=
  h.map_node?_filter fun _ _ => Token.isLeaf_of_node?

theorem map_operations (h : Postorder ts e) :
    (ts.filter fun t => t.isOperator || t.kind = .choice).map Token.node? =
      e.operations.map some :=
  h.map_node?_filter fun _ _ => Token.not_isLeaf_of_node?

end Postorder

end Formula
