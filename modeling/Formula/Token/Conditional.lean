import Formula.Token

/-!
# The parts of a conditional

A formula is plain, or it is one conditional `test ? yes : no` whose three parts are plain.
`Token.split` finds the two marks and cuts the tokens at them.

The first mark that cannot belong to such a conditional is an error: a second `?`, or a `:` that
has no `?` before it or follows another `:`.  Only then are a missing `:` and empty parts looked
for.
-/

namespace Formula

/-- The reasons for which tokens do not form a conditional. -/
inductive ConditionalError where
  /-- A second `?`. -/
  | nested (pos : Nat)
  /-- A `:` without a `?` of its own. -/
  | strayColon (pos : Nat)
  /-- A `?` without a `:`. -/
  | missingColon (pos : Nat)
  /-- A part without tokens, next to the mark at `pos`. -/
  | emptyPart (pos : Nat)
  /-- A part of the conditional at `pos` that does not leave one value. -/
  | malformedPart (pos : Nat)
  /-- A mark where a plain formula is due. -/
  | strayMark (text : String) (pos : Nat)
deriving DecidableEq, Repr

/-- The wording of an error in a conditional. -/
def ConditionalError.message : ConditionalError → String
  | nested pos =>
    "nested conditional expressions are not supported ('?' at position " ++ toString pos ++ ")"
  | strayColon pos => "':' at position " ++ toString pos ++ " has no matching '?'"
  | missingColon pos => "conditional '?' at position " ++ toString pos ++ " is missing its ':'"
  | emptyPart pos => "conditional part next to position " ++ toString pos ++ " is empty"
  | malformedPart pos =>
    "conditional part next to position " ++ toString pos ++ " does not form a single value"
  | strayMark text pos => "unexpected token '" ++ text ++ "' at position " ++ toString pos

namespace Token

/-- The first mark that cannot belong to a single conditional, where `question` and `colon` say
which marks have gone before. -/
def offence? (question colon : Bool) : List Token → Option ConditionalError
  | [] => none
  | t :: ts =>
    match t.kind with
    | .question => if question then some (.nested t.pos) else offence? true colon ts
    | .colon =>
      if !question || colon then some (.strayColon t.pos) else offence? question true ts
    | _ => offence? question colon ts

/-- A formula cut at the marks of its conditional. -/
inductive Parts where
  /-- A formula without marks. -/
  | plain (tokens : List Token)
  /-- The three parts of a conditional, and the token that takes the place of its marks. -/
  | conditional (test yes no : List Token) (choice : Token)
deriving DecidableEq, Repr

/-- The token that stands for the conditional whose `?` is at `pos`. -/
def choiceAt (pos : Nat) : Token := ⟨.choice, "?:", pos⟩

/-- The tokens cut at the marks of their conditional, if there is one. -/
def split (ts : List Token) : Except ConditionalError Parts :=
  match offence? false false ts with
  | some e => .error e
  | none =>
    let test := ts.takeWhile (·.kind ≠ .question)
    match ts.dropWhile (·.kind ≠ .question) with
    | [] => .ok (.plain ts)
    | question :: rest =>
      let yes := rest.takeWhile (·.kind ≠ .colon)
      match rest.dropWhile (·.kind ≠ .colon) with
      | [] => .error (.missingColon question.pos)
      | colon :: no =>
        if test = [] ∨ yes = [] then .error (.emptyPart question.pos)
        else if no = [] then .error (.emptyPart colon.pos)
        else .ok (.conditional test yes no (choiceAt question.pos))

/-- There are no marks among the tokens. -/
def Unmarked (ts : List Token) : Prop := ∀ t ∈ ts, t.kind ≠ .question ∧ t.kind ≠ .colon

variable {ts : List Token}

theorem offence?_append (h : Unmarked ts) (question colon : Bool) (us : List Token) :
    offence? question colon (ts ++ us) = offence? question colon us := by
  induction ts with
  | nil => rfl
  | cons t ts ih =>
    obtain ⟨ht, hts⟩ := List.forall_mem_cons.1 h
    rw [List.cons_append, offence?, ih hts]
    split
    · exact absurd ‹_› ht.1
    · exact absurd ‹_› ht.2
    · rfl

theorem offence?_of_unmarked (h : Unmarked ts) (question colon : Bool) :
    offence? question colon ts = none := by
  have h' := offence?_append h question colon []
  rwa [List.append_nil] at h'

/-- Tokens are cut at the first of a kind. -/
theorem span_kind {k : Kind} {m : Token} (h : ∀ t ∈ ts, t.kind ≠ k) (hm : m.kind = k)
    (us : List Token) :
    (ts ++ m :: us).takeWhile (·.kind ≠ k) = ts ∧
      (ts ++ m :: us).dropWhile (·.kind ≠ k) = m :: us := by
  have hts : ∀ t ∈ ts, decide (t.kind ≠ k) = true := fun t ht => decide_eq_true (h t ht)
  constructor
  · rw [List.takeWhile_append_of_pos hts, List.takeWhile_cons_of_neg (by simp [hm]),
      List.append_nil]
  · rw [List.dropWhile_append_of_pos hts, List.dropWhile_cons_of_neg (by simp [hm])]

/-- Tokens without marks are a plain formula. -/
theorem split_of_unmarked (h : Unmarked ts) : split ts = .ok (.plain ts) := by
  have hrest : ts.dropWhile (·.kind ≠ .question) = [] := by
    have hts : ∀ t ∈ ts, decide (t.kind ≠ .question) = true := fun t ht =>
      decide_eq_true (h t ht).1
    rw [← List.append_nil ts, List.dropWhile_append_of_pos hts, List.dropWhile_nil]
  simp only [split, offence?_of_unmarked h, hrest]

/-- Three parts without marks, with the two marks between them, are a conditional if none of them is
empty. -/
theorem split_of_cut {q k : Token} {cs ys ns : List Token} (hq : q.kind = .question)
    (hk : k.kind = .colon) (hcs : Unmarked cs) (hys : Unmarked ys) (hns : Unmarked ns) :
    split (cs ++ q :: (ys ++ k :: ns)) =
      if cs = [] ∨ ys = [] then .error (.emptyPart q.pos)
      else if ns = [] then .error (.emptyPart k.pos)
      else .ok (.conditional cs ys ns (choiceAt q.pos)) := by
  have ho : offence? false false (cs ++ q :: (ys ++ k :: ns)) = none := by
    rw [offence?_append hcs, offence?, hq]
    simp only [Bool.false_eq_true, ↓reduceIte]
    rw [offence?_append hys, offence?, hk]
    simp [offence?_of_unmarked hns]
  obtain ⟨htest, hrest⟩ := span_kind (fun t ht => (hcs t ht).1) hq (ys ++ k :: ns)
  obtain ⟨hyes, hno⟩ := span_kind (fun t ht => (hys t ht).2) hk ns
  simp only [split, ho, htest, hrest, hyes, hno]

theorem split_of_conditional {q k : Token} {cs ys ns : List Token} (hq : q.kind = .question)
    (hk : k.kind = .colon) (hcs : Unmarked cs) (hys : Unmarked ys) (hns : Unmarked ns)
    (hc : cs ≠ []) (hy : ys ≠ []) (hn : ns ≠ []) :
    split (cs ++ q :: (ys ++ k :: ns)) = .ok (.conditional cs ys ns (choiceAt q.pos)) := by
  rw [split_of_cut hq hk hcs hys hns, if_neg (not_or.2 ⟨hc, hy⟩), if_neg hn]

/-- The tokens up to the first of a kind, and from there on. -/
theorem eq_span_kind {k : Kind} {m : Token} {us : List Token}
    (h : ts.dropWhile (·.kind ≠ k) = m :: us) :
    ts = ts.takeWhile (·.kind ≠ k) ++ m :: us ∧ m.kind = k := by
  refine ⟨by rw [← h, List.takeWhile_append_dropWhile], ?_⟩
  have hm := List.head?_dropWhile_not (fun t : Token => decide (t.kind ≠ k)) ts
  rw [h] at hm
  simpa using hm

/-- Tokens that are cut are a plain formula, or are put together from the three parts and the two
marks. -/
theorem split_cases {parts : Parts} (h : split ts = .ok parts) :
    parts = .plain ts ∨
      ∃ cs q ys k ns, ts = cs ++ q :: (ys ++ k :: ns) ∧ q.kind = .question ∧ k.kind = .colon ∧
        parts = .conditional cs ys ns (choiceAt q.pos) := by
  unfold split at h
  split at h
  · cases h
  · dsimp only at h
    split at h
    · cases h
      exact .inl rfl
    · rename_i q rest hq
      split at h
      · cases h
      · rename_i k ns hk
        split at h
        · cases h
        · split at h
          · cases h
          · cases h
            obtain ⟨hts, hq⟩ := eq_span_kind hq
            obtain ⟨hrest, hk⟩ := eq_span_kind hk
            refine .inr ⟨_, q, _, k, ns, ?_, hq, hk, rfl⟩
            rw [← hrest]
            exact hts

end Token

end Formula
