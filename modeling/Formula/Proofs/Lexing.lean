import Formula.Proofs.Number.ReadBack
import Formula.Proofs.Reading

/-!
# Reading pieces of text

A piece of text that is one token is read as this token if what follows cannot go on with it.  Names
and numbers that are written by `Expr.render` are such pieces, and so are the symbols between them,
since only the end of the text, a blank or a parenthesis follows any of them.

* `Token.Stops` describes the texts that can follow, and `Token.IsToken` the pieces.
* `Token.Reads.piece`, `Token.Reads.lparen`, `Token.Reads.sign` and `Token.Reads.between` put a
  piece in front of a text that has been read.
* `Token.VarName.isToken`, `Token.FuncName.isToken` and `Token.isToken_renderMagnitude`: names and
  numbers are such pieces.
-/

namespace Formula

namespace Token

/-- The text is at its end, or goes on with a blank or a parenthesis. -/
def Stops (rest : List Char) : Prop := ∀ c ∈ rest.head?, c = ' ' ∨ c = '(' ∨ c = ')'

/-- The text is one token of the kind, whatever stands before it and whatever follows. -/
def IsToken (s : String) (k : Kind) : Prop :=
  ∃ c cs, s = String.ofList (c :: cs) ∧ Text.isBlank c = false ∧
    ∀ rest, Stops rest → lexeme? c (cs ++ rest) = some (k, cs.length)

variable {seen seen' : Option String} {pos : Nat} {k : Kind} {s : String} {c : Char}
  {cs rest : List Char} {us : List Token}

theorem stops_nil : Stops [] := by simp [Stops]

theorem stops_space : Stops (' ' :: rest) := by simp [Stops]

theorem stops_lparen : Stops ('(' :: rest) := by simp [Stops]

theorem stops_rparen : Stops (')' :: rest) := by simp [Stops]

/-- What follows a piece goes on with neither a number nor a word. -/
theorem Stops.not_mem (h : Stops rest) :
    ∀ c ∈ rest.head?, isNumberChar c = false ∧ Text.isWordChar c = false := by
  intro c hc
  rcases h c hc with rfl | rfl | rfl <;> decide

/-! ### Putting a piece in front -/

/-- Only a variable changes what is known of variables. -/
theorem track_of_ne_var {t : Token} (hk : t.kind ≠ .var) : track seen t = .ok seen := by
  simp [track, hk]

theorem Reads.piece (hs : IsToken s k) (hrest : Stops rest)
    (htrack : track seen ⟨k, s, pos⟩ = .ok seen')
    (h : Reads seen' (pos + s.toList.length) rest us) :
    Reads seen pos (s.toList ++ rest) (⟨k, s, pos⟩ :: us) := by
  obtain ⟨c, cs, rfl, hblank, hl⟩ := hs
  rw [String.toList_ofList] at h ⊢
  exact .token_append hblank (hl rest hrest) htrack h

/-- A symbol of one character that nothing can go on with. -/
theorem Reads.symbol (hblank : Text.isBlank c = false) (hl : lexeme? c rest = some (k, 0))
    (hk : k ≠ .var) (h : Reads seen (pos + 1) rest us) :
    Reads seen pos (c :: rest) (⟨k, String.ofList [c], pos⟩ :: us) :=
  .token hblank hl (track_of_ne_var hk) h

theorem Reads.lparen (h : Reads seen (pos + 1) rest us) :
    Reads seen pos ('(' :: rest) (⟨.lparen, "(", pos⟩ :: us) :=
  .symbol (by decide) rfl (by decide) h

theorem Reads.rparen (h : Reads seen (pos + 1) rest us) :
    Reads seen pos (')' :: rest) (⟨.rparen, ")", pos⟩ :: us) :=
  .symbol (by decide) rfl (by decide) h

/-- A sign is read as an operator, whatever follows. -/
theorem Reads.sign (s : Sign) (h : Reads seen (pos + 1) rest us) :
    Reads seen pos (s.symbol.toList ++ rest) (⟨.arith s.operator, s.symbol, pos⟩ :: us) := by
  cases s with
  | plus => exact .symbol (by decide) rfl (by decide) h
  | minus => exact .symbol (by decide) rfl (by decide) h

/-- A piece between two blanks. -/
theorem Reads.between (hs : IsToken s k) (hk : k ≠ .var)
    (h : Reads seen (pos + 1 + s.toList.length + 1) rest us) :
    Reads seen pos (' ' :: (s.toList ++ ' ' :: rest)) (⟨k, s, pos + 1⟩ :: us) :=
  .blank (by decide) (.piece hs stops_space (track_of_ne_var hk) (.blank (by decide) h))

/-! ### Symbols -/

theorem isToken_arith (op : Arith) : IsToken op.symbol (.arith op) := by
  cases op <;> exact ⟨_, [], rfl, by decide, fun rest _ => rfl⟩

theorem isToken_compare (op : Comparison) : IsToken op.symbol (.compare op) := by
  cases op with
  | lt | gt =>
    -- no `=` follows
    refine ⟨_, [], rfl, by decide, fun rest hrest => ?_⟩
    cases rest with
    | nil => rfl
    | cons d rest => rcases hrest d rfl with rfl | rfl | rfl <;> rfl
  | _ => exact ⟨_, ['='], rfl, by decide, fun rest _ => rfl⟩

theorem isToken_question : IsToken "?" .question :=
  ⟨'?', [], rfl, by decide, fun rest _ => rfl⟩

theorem isToken_colon : IsToken ":" .colon :=
  ⟨':', [], rfl, by decide, fun rest _ => rfl⟩

/-! ### Names and numbers -/

theorem isNumberChar_of_isLetter (h : Text.isLetter c = true) : isNumberChar c = false := by
  have hlt := Text.lt_of_isLetter h
  simp only [isNumberChar, Bool.or_eq_false_iff, beq_eq_false_iff_ne]
  constructor
  · rw [← Bool.not_eq_true, Char.isDigit_iff_toNat]
    rintro ⟨-, hle⟩
    have hle : c.toNat ≤ 0x39 := hle
    omega
  · rintro rfl
    revert hlt
    decide

theorem isBlank_of_isLetter (hc : Text.isLetter c = true) : Text.isBlank c = false :=
  Text.isBlank_eq_false_of_isWordChar (Text.isWordChar_of_isLetter hc)

theorem lexeme?_word (hc : Text.isLetter c = true) (hπ : c ≠ 'π') (hℯ : c ≠ 'ℯ')
    (hcs : ∀ d ∈ cs, Text.isWordChar d = true) (hrest : Stops rest) :
    lexeme? c (cs ++ rest) = some (wordKind (c :: cs), cs.length) := by
  have htail := (Number.span_append hcs fun d hd => (hrest.not_mem d hd).2).1
  simp only [lexeme?, isNumberChar_of_isLetter hc, hc, hπ, hℯ, htail, or_self, Bool.false_eq_true,
    ↓reduceIte]

theorem VarName.isToken (h : VarName s) : IsToken s .var := by
  obtain ⟨c, rfl, hc, he, hπ, hℯ⟩ := h
  refine ⟨c, [], rfl, isBlank_of_isLetter hc, fun rest hrest => ?_⟩
  rw [lexeme?_word hc hπ hℯ (by simp) hrest]
  simp [wordKind, he]

theorem FuncName.isToken (h : FuncName s) : IsToken s .func := by
  obtain ⟨c, cs, rfl, hne, hc, hπ, hℯ, hcs, hpi⟩ := h
  refine ⟨c, cs, rfl, isBlank_of_isLetter hc, fun rest hrest => ?_⟩
  have hpi : c :: cs ≠ ['p', 'i'] := fun h => hpi (by rw [h])
  have hlength : (c :: cs).length ≠ 1 := by simpa using hne
  have he : c :: cs ≠ ['e'] := fun h => hlength (by rw [h]; rfl)
  rw [lexeme?_word hc hπ hℯ hcs hrest, wordKind, if_neg (not_or.2 ⟨he, hpi⟩), if_neg hlength]

/-- Digits and points are one token if they start with a digit. -/
theorem isToken_of_digits (hc : c.isDigit = true) (hcs : ∀ d ∈ cs, isNumberChar d = true) :
    IsToken (String.ofList (c :: cs)) .number := by
  refine ⟨c, cs, rfl, ?_, fun rest hrest => ?_⟩
  · exact Text.isBlank_eq_false_of_isWordChar (Text.isWordChar_of_isDigit hc)
  · have hnumber : isNumberChar c = true := by rw [isNumberChar, hc, Bool.true_or]
    have hspan := (Number.span_append hcs fun d hd => (hrest.not_mem d hd).1).1
    simp only [lexeme?, hnumber, hspan, ↓reduceIte]

/-- A number is written as one token, which is the name of a function if the number is not
finite. -/
theorem isToken_renderMagnitude {v : Float} (hpos : Number.isNegative v = false) :
    IsToken (Number.renderMagnitude v) (if v.isFinite then .number else .func) := by
  cases hv : v.isFinite with
  | true =>
    obtain ⟨d, htext, -⟩ := Number.exists_renderMagnitude hv hpos
    obtain ⟨c, cs, hcs, hc, htail⟩ := d.positional_cases
    rw [htext, hcs]
    refine isToken_of_digits hc fun d hd => ?_
    rcases htail d hd with hd | rfl
    · rw [isNumberChar, hd, Bool.true_or]
    · rfl
  | false =>
    rcases Number.renderMagnitude_of_not_isFinite hv with h | h
    · rw [h]
      exact FuncName.isToken ⟨'i', ['n', 'f'], rfl, by decide, by decide, by decide, by decide,
        List.all_eq_true.1 (by decide), by decide⟩
    · rw [h]
      exact FuncName.isToken ⟨'N', ['a', 'N'], rfl, by decide, by decide, by decide, by decide,
        List.all_eq_true.1 (by decide), by decide⟩

end Token

end Formula
