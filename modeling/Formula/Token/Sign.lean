import Formula.Token

/-!
# Telling signs from operators

A `+` or `-` is a sign of the operand that follows it where no operand precedes it: at the
start, and after an opening parenthesis, a comma, an operator, a comparison, another sign, or one of
the marks `?` and `:`.  Everywhere else it is an arithmetic operator.

`Token.markSigns` turns the arithmetic tokens that are signs into sign tokens, whose texts are
`u+` and `u-`.  What precedes a token is judged after marking, so that each sign of a run such as
`--x` makes the next one a sign.
-/

namespace Formula

namespace Token

/-- After a token of this kind an operand is due. -/
def Kind.awaitsOperand : Kind → Bool
  | .lparen | .comma | .arith _ | .sign _ | .compare _ | .question | .colon => true
  | _ => false

/-- The sign that an arithmetic operator is when an operand is due. -/
def Kind.asSign? : Kind → Option Sign
  | .arith .add => some .plus
  | .arith .sub => some .minus
  | _ => none

/-- The token as it is read where an operand is due (`due`) or is not. -/
def mark (due : Bool) (t : Token) : Token :=
  match due, t.kind.asSign? with
  | true, some s => ⟨.sign s, "u" ++ s.symbol, t.pos⟩
  | _, _ => t

/-- The tokens with their signs marked, where `due` says whether an operand is due at the start. -/
def markSignsFrom (due : Bool) : List Token → List Token
  | [] => []
  | t :: ts => t.mark due :: markSignsFrom (t.mark due).kind.awaitsOperand ts

theorem mark_mark (due : Bool) (t : Token) : (t.mark due).mark due = t.mark due := by
  obtain ⟨kind, text, pos⟩ := t
  cases due with
  | false => rfl
  | true =>
    cases kind with
    | arith op => cases op <;> rfl
    | _ => rfl

/-- After a stretch of tokens an operand is due if its last token, once marked, awaits one. -/
theorem markSignsFrom_append (due : Bool) (ts us : List Token) :
    markSignsFrom due (ts ++ us) = markSignsFrom due ts ++
      markSignsFrom (((markSignsFrom due ts).getLast?.map (·.kind.awaitsOperand)).getD due) us := by
  induction ts generalizing due with
  | nil => rfl
  | cons t ts ih =>
    simp only [List.cons_append, markSignsFrom, ih]
    cases markSignsFrom (t.mark due).kind.awaitsOperand ts <;> simp [List.getLast?_cons]

/-- Where no operand is due every token stays as it is. -/
theorem mark_false (t : Token) : t.mark false = t := rfl

/-- A token that cannot be a sign stays as it is. -/
theorem mark_of_asSign?_eq_none {t : Token} (h : t.kind.asSign? = none) (due : Bool) :
    t.mark due = t := by
  cases due <;> simp only [mark, h]

theorem Kind.asSign?_eq_none {k : Kind} (h : k.awaitsOperand = false) : k.asSign? = none := by
  cases k <;> first | rfl | cases h

/-- No operand is due after a token that awaits none. -/
theorem markSignsFrom_concat_append {last : Token} (h : last.kind.awaitsOperand = false)
    (due : Bool) (init us : List Token) :
    markSignsFrom due (init ++ [last] ++ us) =
      markSignsFrom due (init ++ [last]) ++ markSignsFrom false us := by
  have hlast : (markSignsFrom due (init ++ [last])).getLast? = some last := by
    rw [markSignsFrom_append, markSignsFrom, markSignsFrom,
      mark_of_asSign?_eq_none (Kind.asSign?_eq_none h), List.getLast?_concat]
  rw [markSignsFrom_append, hlast, Option.map_some, h, Option.getD_some]

/-- An operand is due after a token that awaits one and cannot be a sign itself. -/
theorem markSignsFrom_append_cons {s : Token} (h : s.kind.awaitsOperand = true)
    (hs : s.kind.asSign? = none) (due : Bool) (ts us : List Token) :
    markSignsFrom due (ts ++ s :: us) = markSignsFrom due ts ++ s :: markSignsFrom true us := by
  rw [markSignsFrom_append, markSignsFrom, mark_of_asSign?_eq_none hs, h]

/-- Marking makes no tokens but signs. -/
theorem mem_markSignsFrom {due : Bool} {ts : List Token} {t : Token}
    (h : t ∈ markSignsFrom due ts) : t ∈ ts ∨ ∃ s, t.kind = .sign s := by
  induction ts generalizing due with
  | nil => cases h
  | cons u us ih =>
    rcases List.mem_cons.1 h with rfl | h
    · unfold mark
      split
      · exact .inr ⟨_, rfl⟩
      · exact .inl List.mem_cons_self
    · exact (ih h).imp_left (List.mem_cons_of_mem _)

/-- The tokens with their signs marked. -/
def markSigns : List Token → List Token := markSignsFrom true

end Token

end Formula
