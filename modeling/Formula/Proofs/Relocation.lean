import Formula.Curve
import Formula.Proofs.Conservation

/-!
# Tokens at other positions

What is made of tokens does not depend on where they stand.  If the tokens are moved, then so are
the tokens in postfix order, and the errors about a conditional; the tree stays as it is.

* `Token.move` gives a token another position, and `ConditionalError.move` an error.
* `Token.markSignsFrom_move`, `Token.split_move` and `Postfix.reorderFrom_move` for the stages, and
  **`Postfix.ofTokens_move`** for a formula.
* **`Expr.ofPostfix_move`**: the tree is the same, and so is the reason for which there is none.
* `Token.SameSpelling` says that tokens differ in nothing but their positions.  Then so do those in
  postfix order (`Postfix.exists_ofTokens_of_sameSpelling`), which build the same tree
  (`Expr.ofPostfix_of_sameSpelling`).
-/

namespace Formula

/-- The token, moved. -/
def Token.move (f : Nat → Nat) (t : Token) : Token := ⟨t.kind, t.text, f t.pos⟩

/-- The error about moved tokens. -/
def ConditionalError.move (f : Nat → Nat) : ConditionalError → ConditionalError
  | nested pos => nested (f pos)
  | strayColon pos => strayColon (f pos)
  | missingColon pos => missingColon (f pos)
  | emptyPart pos => emptyPart (f pos)
  | malformedPart pos => malformedPart (f pos)
  | strayMark text pos => strayMark text (f pos)

/-- The parts of moved tokens. -/
def Token.Parts.move (f : Nat → Nat) : Token.Parts → Token.Parts
  | plain ts => plain (ts.map (Token.move f))
  | conditional test yes no choice =>
    conditional (test.map (Token.move f)) (yes.map (Token.move f)) (no.map (Token.move f))
      (choice.move f)

namespace Token

variable (f : Nat → Nat) (ts : List Token)

@[simp]
theorem kind_move (t : Token) : (t.move f).kind = t.kind := rfl

@[simp]
theorem text_move (t : Token) : (t.move f).text = t.text := rfl

@[simp]
theorem pos_move (t : Token) : (t.move f).pos = f t.pos := rfl

theorem mark_move (due : Bool) (t : Token) : (t.move f).mark due = (t.mark due).move f := by
  unfold mark
  rw [kind_move]
  split <;> rfl

theorem markSignsFrom_move (due : Bool) :
    markSignsFrom due (ts.map (move f)) = (markSignsFrom due ts).map (move f) := by
  induction ts generalizing due with
  | nil => rfl
  | cons t ts ih => simp only [List.map_cons, markSignsFrom, mark_move, ih, kind_move]

theorem offence?_move (question colon : Bool) :
    offence? question colon (ts.map (move f)) =
      (offence? question colon ts).map (ConditionalError.move f) := by
  induction ts generalizing question colon with
  | nil => rfl
  | cons t ts ih =>
    simp only [List.map_cons, offence?, kind_move]
    split
    · cases question with
      | false => exact ih ..
      | true => rfl
    · split
      · rfl
      · exact ih ..
    · exact ih ..

/-- A stretch of tokens is cut at its kinds. -/
theorem takeWhile_move {p : Token → Bool} (hp : ∀ t : Token, p (t.move f) = p t) :
    (ts.map (move f)).takeWhile p = (ts.takeWhile p).map (move f) := by
  rw [List.takeWhile_map, show p ∘ move f = p from funext hp]

theorem dropWhile_move {p : Token → Bool} (hp : ∀ t : Token, p (t.move f) = p t) :
    (ts.map (move f)).dropWhile p = (ts.dropWhile p).map (move f) := by
  rw [List.dropWhile_map, show p ∘ move f = p from funext hp]

theorem split_move : split (ts.map (move f)) =
    ((split ts).map (Parts.move f)).mapError (ConditionalError.move f) := by
  have htake (k : Kind) (us : List Token) := takeWhile_move f us (p := (·.kind ≠ k)) fun _ => rfl
  have hdrop (k : Kind) (us : List Token) := dropWhile_move f us (p := (·.kind ≠ k)) fun _ => rfl
  unfold split
  rw [offence?_move]
  cases offence? false false ts with
  | some e => rfl
  | none =>
    simp only [Option.map_none, htake, hdrop]
    cases ts.dropWhile (·.kind ≠ .question) with
    | nil => rfl
    | cons question rest =>
      simp only [List.map_cons, htake, hdrop]
      cases rest.dropWhile (·.kind ≠ .colon) with
      | nil => rfl
      | cons colon no =>
        simp only [List.map_cons, List.map_eq_nil_iff]
        split
        · rfl
        · split <;> rfl

end Token

namespace Postfix

open Token (move)

variable (f : Nat → Nat) (stack ts : List Token)

theorem inside_move : inside (stack.map (move f)) = (inside stack).map (move f) :=
  Token.takeWhile_move f stack fun _ => rfl

theorem outside_move : outside (stack.map (move f)) = (outside stack).map (move f) :=
  Token.dropWhile_move f stack fun _ => rfl

/-- What the machine does with a token does not depend on positions. -/
theorem advance_move (t : Token) : advance (t.move f) (stack.map (move f)) =
    ((advance t stack).1.map (move f), (advance t stack).2.map (move f)) := by
  have htake := Token.takeWhile_move f stack (p := fun top => precedes top.kind t.kind) fun _ => rfl
  have hdrop := Token.dropWhile_move f stack (p := fun top => precedes top.kind t.kind) fun _ => rfl
  simp only [advance, Token.kind_move, inside_move, outside_move, htake, hdrop, ← List.map_drop]
  split <;> try rfl
  -- a closing parenthesis
  cases (outside stack).drop 1 with
  | nil => rfl
  | cons top below =>
    by_cases h : top.kind = .func
    · simp [h]
    · simp [h]

theorem reorderFrom_move : reorderFrom (stack.map (move f)) (ts.map (move f)) =
    (reorderFrom stack ts).map (move f) := by
  induction ts generalizing stack with
  | nil => rfl
  | cons t ts ih =>
    rw [List.map_cons, reorderFrom_cons, advance_move, ih, ← List.map_append, ← reorderFrom_cons]

theorem reorder_move : reorder (ts.map (move f)) =
    ((reorder ts).map (List.map (move f))).mapError (ConditionalError.move f) := by
  unfold reorder
  rw [List.find?_map, show isMark ∘ move f = isMark from rfl]
  cases ts.find? isMark with
  | some t => rfl
  | none =>
    simp only [Option.map_none]
    exact congrArg Except.ok (reorderFrom_move f [] ts)

theorem valueCount_move : valueCount (ts.map (move f)) = valueCount ts := by
  rw [valueCount, List.foldlM_map]
  rfl

theorem part_move (pos : Nat) : part (f pos) (ts.map (move f)) =
    ((part pos ts).map (List.map (move f))).mapError (ConditionalError.move f) := by
  unfold part
  rw [reorder_move]
  cases reorder ts with
  | error e => rfl
  | ok ps =>
    simp only [Except.map, Except.mapError, valueCount_move]
    split <;> rfl

/-- **Moving the tokens of a formula moves them in postfix order**, and moves the errors. -/
theorem ofTokens_move : ofTokens (ts.map (move f)) =
    ((ofTokens ts).map (List.map (move f))).mapError (ConditionalError.move f) := by
  unfold ofTokens
  rw [Token.markSigns, Token.markSignsFrom_move, Token.split_move]
  cases Token.split (Token.markSignsFrom true ts) with
  | error e => rfl
  | ok parts =>
    cases parts with
    | plain us => exact reorder_move f us
    | conditional test yes no choice =>
      simp only [bind, Except.bind, Except.map, Except.mapError, Token.Parts.move, Token.pos_move,
        part_move]
      cases part choice.pos test with
      | error e => rfl
      | ok test =>
        cases part choice.pos yes with
        | error e => rfl
        | ok yes =>
          cases part choice.pos no with
          | error e => rfl
          | ok no => simp [pure, Except.pure]

end Postfix

namespace Expr

variable (f : Nat → Nat) (ts : List Token)

theorem run_move (index : Nat) (forest : Forest) :
    run index forest (ts.map (Token.move f)) = run index forest ts := by
  induction ts generalizing index forest with
  | nil => rfl
  | cons t ts ih =>
    have hstep : step index (t.move f) forest = step index t forest := rfl
    simp only [List.map_cons, run, hstep, ih]

/-- **Building a tree does not depend on positions.** -/
theorem ofPostfix_move : ofPostfix (ts.map (Token.move f)) = ofPostfix ts := by
  simp only [ofPostfix, List.map_eq_nil_iff, run_move]

end Expr

/-! ### Tokens that are spelled in the same way -/

/-- The tokens have the same kinds and texts. -/
def Token.SameSpelling (ts us : List Token) : Prop :=
  ts.map (fun t => (t.kind, t.text)) = us.map fun t => (t.kind, t.text)

variable {ts us ps : List Token}

/-- Tokens with the same kinds and texts are the same once all are moved to one place. -/
theorem Token.SameSpelling.map_move (h : SameSpelling ts us) :
    ts.map (Token.move fun _ => 0) = us.map (Token.move fun _ => 0) := by
  have hmove := congrArg (List.map fun s : Kind × String => (⟨s.1, s.2, 0⟩ : Token)) h
  rwa [List.map_map, List.map_map] at hmove

/-- Tokens that are spelled in the same way are put into postfix order in the same way. -/
theorem Postfix.exists_ofTokens_of_sameSpelling (h : Token.SameSpelling ts us)
    (hts : ofTokens ts = .ok ps) : ∃ qs, ofTokens us = .ok qs ∧ Token.SameSpelling ps qs := by
  have hus := ofTokens_move (fun _ => 0) us
  rw [← h.map_move, ofTokens_move, hts] at hus
  cases hqs : ofTokens us with
  | error e =>
    rw [hqs] at hus
    cases hus
  | ok qs =>
    rw [hqs] at hus
    have hmap : ps.map (Token.move fun _ => 0) = qs.map (Token.move fun _ => 0) := by
      simpa [Except.map, Except.mapError] using hus
    refine ⟨qs, rfl, ?_⟩
    have hspell := congrArg (List.map fun t : Token => (t.kind, t.text)) hmap
    rwa [List.map_map, List.map_map] at hspell

/-- Tokens that are spelled in the same way build the same tree, or fail for the same reason. -/
theorem Expr.ofPostfix_of_sameSpelling (h : Token.SameSpelling ts us) :
    ofPostfix ts = ofPostfix us := by
  rw [← ofPostfix_move (fun _ => 0), h.map_move, ofPostfix_move]

end Formula
