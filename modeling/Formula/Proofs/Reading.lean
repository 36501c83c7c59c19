import Formula.Token.Reader

/-!
# What reading produces

* `Token.Reads` relates a text to its tokens, one character or one token at a time, and
  `Token.readFrom_eq_ok_iff` says that it is what `Token.readFrom` computes.
* `Token.VarName` and `Token.FuncName` are the names that a variable and a function can have.
* `Token.IsLexeme` says that a token is the piece that was cut off some text, and the lemmas
  `Token.IsLexeme.var`, `Token.IsLexeme.func` and `Token.IsLexeme.text_eq_symbol` what its text then
  is.
* `Token.Reads.exists_variable`: the variables among the tokens of a text are all the same.
* `Token.Reads.question_mem_iff`: a text has a question mark just if one of its tokens is one.
-/

namespace Formula

namespace Token

/-- The tokens are read from the text at position `pos`, where `seen` is the variable read before
it. -/
inductive Reads : Option String → Nat → List Char → List Token → Prop
  | nil {seen : Option String} {pos : Nat} : Reads seen pos [] []
  | blank {seen : Option String} {pos : Nat} {c : Char} {rest : List Char} {ts : List Token} :
      Text.isBlank c = true → Reads seen (pos + 1) rest ts → Reads seen pos (c :: rest) ts
  | token {seen seen' : Option String} {pos n : Nat} {c : Char} {rest : List Char} {kind : Kind}
      {ts : List Token} : Text.isBlank c = false → lexeme? c rest = some (kind, n) →
      track seen ⟨kind, String.ofList (c :: rest.take n), pos⟩ = .ok seen' →
      Reads seen' (pos + n + 1) (rest.drop n) ts →
      Reads seen pos (c :: rest) (⟨kind, String.ofList (c :: rest.take n), pos⟩ :: ts)

variable {seen seen' : Option String} {pos : Nat} {text : List Char} {t : Token} {ts : List Token}

theorem Reads.readFrom (h : Reads seen pos text ts) : readFrom seen pos text = .ok ts := by
  induction h with
  | nil => rw [Token.readFrom]
  | blank hb _ ih => rw [Token.readFrom, if_pos hb, ih]
  | token hb hl ht _ ih =>
    rw [Token.readFrom, if_neg (by simp [hb]), hl]
    simp only [ht, ih, bind, Except.bind]
    rfl

theorem reads_of_readFrom (h : readFrom seen pos text = .ok ts) : Reads seen pos text ts := by
  -- the cases are the end of the text, a blank, a character that starts no token, and a token
  fun_induction readFrom seen pos text generalizing ts with
  | case1 => cases h; exact .nil
  | case2 seen pos c rest hb ih => exact .blank hb (ih h)
  | case3 => cases h
  | case4 seen pos c rest hb kind n hl t =>
    rename_i ih
    simp only [bind, Except.bind] at h
    split at h
    · cases h
    · split at h
      · cases h
      · cases h
        exact .token (Bool.eq_false_iff.2 hb) hl ‹track seen _ = _› (ih _ ‹_›)

/-- Reading succeeds just on the texts that have tokens. -/
theorem readFrom_eq_ok_iff : readFrom seen pos text = .ok ts ↔ Reads seen pos text ts :=
  ⟨reads_of_readFrom, Reads.readFrom⟩

/-- A token in front of a text that has been read. -/
theorem Reads.token_append {k : Kind} {c : Char} {w rest : List Char}
    (hb : Text.isBlank c = false) (hl : lexeme? c (w ++ rest) = some (k, w.length))
    (ht : track seen ⟨k, String.ofList (c :: w), pos⟩ = .ok seen')
    (h : Reads seen' (pos + w.length + 1) rest ts) :
    Reads seen pos (c :: (w ++ rest)) (⟨k, String.ofList (c :: w), pos⟩ :: ts) := by
  have htoken := @Reads.token seen seen' pos w.length c (w ++ rest) k ts hb hl
  rw [List.take_left, List.drop_left] at htoken
  exact htoken ht h

/-! ### The one variable -/

theorem track_spec (h : track seen t = .ok seen') :
    (∀ x, seen = some x → seen' = some x) ∧ (t.kind = .var → seen' = some t.text) := by
  by_cases hk : t.kind = .var
  · cases seen with
    | none =>
      simp only [track, hk, Except.ok.injEq] at h
      subst h
      exact ⟨by simp, fun _ => rfl⟩
    | some first =>
      simp only [track, hk] at h
      split at h
      · cases h
        subst ‹first = t.text›
        exact ⟨fun x hx => hx, fun _ => rfl⟩
      · cases h
  · have hseen : seen' = seen := by simpa [track, hk, eq_comm] using h
    exact ⟨fun x hx => hseen ▸ hx, fun hvar => absurd hvar hk⟩

/-- **The variables of a text are all the same**, and the same as one that was read before. -/
theorem Reads.exists_variable (h : Reads seen pos text ts) :
    ∃ x, (∀ y, seen = some y → y = x) ∧ ∀ t ∈ ts, t.kind = .var → t.text = x := by
  induction h with
  | @nil seen pos => exact ⟨seen.getD "", by rintro y rfl; rfl, by simp⟩
  | blank _ _ ih => exact ih
  | token _ _ htrack _ ih =>
    obtain ⟨x, hx, hts⟩ := ih
    obtain ⟨hseen, hvar⟩ := track_spec htrack
    -- a variable that was read before is still known after the token, and the rest goes on with it
    refine ⟨x, fun y hy => hx y (hseen y hy), ?_⟩
    rw [List.forall_mem_cons]
    exact ⟨fun hk => hx _ (hvar hk), hts⟩

/-! ### The texts of tokens -/

/-- A variable can have this name: one letter that stands for no constant. -/
def VarName (s : String) : Prop :=
  ∃ c, s = String.ofList [c] ∧ Text.isLetter c = true ∧ c ≠ 'e' ∧ c ≠ 'π' ∧ c ≠ 'ℯ'

/-- A function can have this name: a letter that stands for no constant by itself, and more word
characters, which do not spell a constant either. -/
def FuncName (s : String) : Prop :=
  ∃ c cs, s = String.ofList (c :: cs) ∧ cs ≠ [] ∧ Text.isLetter c = true ∧ c ≠ 'π' ∧ c ≠ 'ℯ' ∧
    (∀ d ∈ cs, Text.isWordChar d = true) ∧ s ≠ "pi"

/-- The token was cut off some text. -/
def IsLexeme (t : Token) : Prop :=
  ∃ c rest n, lexeme? c rest = some (t.kind, n) ∧ t.text = String.ofList (c :: rest.take n)

theorem Reads.isLexeme (h : Reads seen pos text ts) : ∀ t ∈ ts, t.IsLexeme := by
  induction h with
  | nil => simp
  | blank _ _ ih => exact ih
  | token _ hl _ _ ih => exact List.forall_mem_cons.2 ⟨⟨_, _, _, hl, rfl⟩, ih⟩

/-- A symbol is no leaf of a tree, and neither of the kinds that are made later. -/
theorem symbol?_kind {c : Char} {next : Option Char} {k : Kind} {n : Nat}
    (h : symbol? c next = some (k, n)) :
    k ≠ .number ∧ k ≠ .var ∧ k ≠ .func ∧ k ≠ .choice ∧ ∀ s, k ≠ .sign s := by
  unfold symbol? at h
  split at h <;> cases h <;> simp

theorem wordKind_cases (w : List Char) :
    (wordKind w = .number ∧ (w = ['e'] ∨ w = ['p', 'i'])) ∨
      (wordKind w = .var ∧ w ≠ ['e'] ∧ w.length = 1) ∨
      (wordKind w = .func ∧ w ≠ ['p', 'i'] ∧ w.length ≠ 1) := by
  unfold wordKind
  split
  · exact .inl ⟨rfl, ‹_›⟩
  · rename_i hconst
    rw [not_or] at hconst
    split
    · exact .inr (.inl ⟨rfl, hconst.1, ‹_›⟩)
    · exact .inr (.inr ⟨rfl, hconst.2, ‹_›⟩)

/-- A lexeme is a run of digits and points, a constant of one character, a word, or a symbol. -/
theorem lexeme?_cases {c : Char} {rest : List Char} {k : Kind} {n : Nat}
    (h : lexeme? c rest = some (k, n)) :
    (isNumberChar c = true ∧ k = .number ∧ n = (rest.takeWhile isNumberChar).length) ∨
      ((c = 'π' ∨ c = 'ℯ') ∧ k = .number ∧ n = 0) ∨
      (Text.isLetter c = true ∧ c ≠ 'π' ∧ c ≠ 'ℯ' ∧
        k = wordKind (c :: rest.takeWhile Text.isWordChar) ∧
        n = (rest.takeWhile Text.isWordChar).length) ∨
      symbol? c rest.head? = some (k, n) := by
  unfold lexeme? at h
  split at h
  · cases h
    exact .inl ⟨‹_›, rfl, rfl⟩
  · split at h
    · cases h
      exact .inr (.inl ⟨‹_›, rfl, rfl⟩)
    · rename_i hconst
      rw [not_or] at hconst
      split at h
      · cases h
        exact .inr (.inr (.inl ⟨‹_›, hconst.1, hconst.2, rfl, rfl⟩))
      · exact .inr (.inr (.inr h))

/-- Beyond its first character a symbol takes in nothing, or the `=` that follows. -/
theorem symbol?_length {c : Char} {next : Option Char} {k : Kind} {n : Nat}
    (h : symbol? c next = some (k, n)) : n = 0 ∨ n = 1 ∧ next = some '=' := by
  unfold symbol? at h
  split at h <;> cases h <;> simp

/-- The characters of an operator are its symbol. -/
theorem symbol?_text {c : Char} {rest : List Char} {k : Kind} {n : Nat}
    (h : symbol? c rest.head? = some (k, n)) :
    (∀ op, k = .arith op → String.ofList (c :: rest.take n) = op.symbol) ∧
      ∀ op, k = .compare op → String.ofList (c :: rest.take n) = op.symbol := by
  have htake : rest.take n = if n = 0 then [] else ['='] := by
    obtain rfl | ⟨rfl, hnext⟩ := symbol?_length h
    · rfl
    · obtain ⟨tail, rfl⟩ := List.head?_eq_some_iff.1 hnext
      rfl
  rw [htake]
  unfold symbol? at h
  split at h <;> cases h
  all_goals constructor <;> rintro op ⟨⟩ <;> rfl

theorem take_length_takeWhile (p : Char → Bool) (cs : List Char) :
    cs.take (cs.takeWhile p).length = cs.takeWhile p :=
  (List.prefix_iff_eq_take.1 (List.takeWhile_prefix p)).symm

/-- After its first character a lexeme goes on with digits, points, letters and numerals, or with
`=`. -/
theorem lexeme?_tail {c : Char} {rest : List Char} {k : Kind} {n : Nat}
    (h : lexeme? c rest = some (k, n)) :
    ∀ d ∈ rest.take n, isNumberChar d = true ∨ Text.isWordChar d = true ∨ d = '=' := by
  have hrun (p : Char → Bool) : ∀ d ∈ rest.take (rest.takeWhile p).length, p d = true := by
    rw [take_length_takeWhile]
    exact List.all_eq_true.1 List.all_takeWhile
  obtain ⟨-, -, rfl⟩ | ⟨-, -, rfl⟩ | ⟨-, -, -, -, rfl⟩ | hsym := lexeme?_cases h
  · exact fun d hd => .inl (hrun _ d hd)
  · simp
  · exact fun d hd => .inr (.inl (hrun _ d hd))
  · obtain rfl | ⟨rfl, hnext⟩ := symbol?_length hsym
    · simp
    · cases rest <;> simp_all

/-- A lexeme is a number, a name or a symbol. -/
theorem lexeme?_kind {c : Char} {rest : List Char} {k : Kind} {n : Nat}
    (h : lexeme? c rest = some (k, n)) :
    k = .number ∨ k = .var ∨ k = .func ∨ symbol? c rest.head? = some (k, n) := by
  obtain ⟨-, hk, -⟩ | ⟨-, hk, -⟩ | ⟨-, -, -, hk, -⟩ | hsym := lexeme?_cases h
  · exact .inl hk
  · exact .inl hk
  · obtain ⟨hw, -⟩ | ⟨hw, -⟩ | ⟨hw, -⟩ := wordKind_cases (c :: rest.takeWhile Text.isWordChar) <;>
      simp [hk, hw]
  · exact .inr (.inr (.inr hsym))

theorem lexeme?_eq_question_iff {c : Char} {rest : List Char} {k : Kind} {n : Nat}
    (h : lexeme? c rest = some (k, n)) : k = .question ↔ c = '?' := by
  constructor
  · rintro rfl
    obtain hk | hk | hk | hsym := lexeme?_kind h
    · cases hk
    · cases hk
    · cases hk
    · unfold symbol? at hsym
      split at hsym <;> cases hsym
      rfl
  · rintro rfl
    have hl : lexeme? '?' rest = some (.question, 0) := rfl
    rw [hl] at h
    cases h
    rfl

/-- A word that was cut off starts with a letter that is no constant. -/
theorem IsLexeme.word (h : t.IsLexeme) (hk : t.kind = .var ∨ t.kind = .func) :
    ∃ c cs, t.text = String.ofList (c :: cs) ∧ Text.isLetter c = true ∧ c ≠ 'π' ∧ c ≠ 'ℯ' ∧
      (∀ d ∈ cs, Text.isWordChar d = true) ∧ t.kind = wordKind (c :: cs) := by
  obtain ⟨c, rest, n, hl, htext⟩ := h
  obtain ⟨-, hnum, -⟩ | ⟨-, hnum, -⟩ | ⟨hc, hπ, hℯ, hkind, rfl⟩ | hsym := lexeme?_cases hl
  · simp [hnum] at hk
  · simp [hnum] at hk
  · rw [take_length_takeWhile] at htext
    exact ⟨c, _, htext, hc, hπ, hℯ, List.all_eq_true.1 List.all_takeWhile, hkind⟩
  · obtain ⟨-, hvar, hfunc, -⟩ := symbol?_kind hsym
    exact absurd hk (not_or.2 ⟨hvar, hfunc⟩)

theorem IsLexeme.var (h : t.IsLexeme) (hk : t.kind = .var) : VarName t.text := by
  obtain ⟨c, cs, htext, hc, hπ, hℯ, -, hkind⟩ := h.word (.inl hk)
  rw [hk] at hkind
  obtain ⟨hw, -⟩ | ⟨-, he, hlength⟩ | ⟨hw, -⟩ := wordKind_cases (c :: cs)
  · rw [hw] at hkind
    cases hkind
  · obtain rfl : cs = [] := by simpa using hlength
    exact ⟨c, htext, hc, by simpa using he, hπ, hℯ⟩
  · rw [hw] at hkind
    cases hkind

theorem IsLexeme.func (h : t.IsLexeme) (hk : t.kind = .func) : FuncName t.text := by
  obtain ⟨c, cs, htext, hc, hπ, hℯ, hcs, hkind⟩ := h.word (.inr hk)
  rw [hk] at hkind
  obtain ⟨hw, -⟩ | ⟨hw, -⟩ | ⟨-, hpi, hlength⟩ := wordKind_cases (c :: cs)
  · rw [hw] at hkind
    cases hkind
  · rw [hw] at hkind
    cases hkind
  · refine ⟨c, cs, htext, by simpa using hlength, hc, hπ, hℯ, hcs, ?_⟩
    intro h
    apply hpi
    have hlist := congrArg String.toList (htext.symm.trans h)
    rw [String.toList_ofList] at hlist
    exact hlist

/-- The lexer makes no mark of a conditional in postfix order. -/
theorem IsLexeme.ne_choice (h : t.IsLexeme) : t.kind ≠ .choice := by
  obtain ⟨c, rest, n, hl, -⟩ := h
  obtain hk | hk | hk | hsym := lexeme?_kind hl
  · simp [hk]
  · simp [hk]
  · simp [hk]
  · exact (symbol?_kind hsym).2.2.2.1

/-- The text of a number starts with a digit or a point, or with the name of a constant. -/
theorem IsLexeme.exists_head (h : t.IsLexeme) (hk : t.kind = .number) :
    ∃ c, t.text.toList.head? = some c ∧
      (isNumberChar c = true ∨ c = 'π' ∨ c = 'ℯ' ∨ c = 'e' ∨ c = 'p') := by
  obtain ⟨c, rest, n, hl, htext⟩ := h
  refine ⟨c, by rw [htext, String.toList_ofList, List.head?_cons], ?_⟩
  obtain ⟨hc, -⟩ | ⟨hc, -⟩ | ⟨-, -, -, hkind, -⟩ | hsym := lexeme?_cases hl
  · exact .inl hc
  · exact .inr (hc.imp_right .inl)
  · obtain ⟨-, hw⟩ | ⟨hw, -⟩ | ⟨hw, -⟩ := wordKind_cases (c :: rest.takeWhile Text.isWordChar)
    · rcases hw with hw | hw <;> simp [(List.cons.inj hw).1]
    · simp [hw, hk] at hkind
    · simp [hw, hk] at hkind
  · exact absurd hk (symbol?_kind hsym).1

/-- The text of a number has no sign. -/
theorem IsLexeme.head?_ne_minus (h : t.IsLexeme) (hk : t.kind = .number) :
    t.text.toList.head? ≠ some '-' := by
  obtain ⟨c, hhead, hc⟩ := h.exists_head hk
  rw [hhead]
  rintro ⟨⟩
  revert hc
  decide

/-- **Operators are spelled by their symbols.** -/
theorem IsLexeme.text_eq_symbol (h : t.IsLexeme) :
    (∀ op, t.kind = .arith op → t.text = op.symbol) ∧
      ∀ op, t.kind = .compare op → t.text = op.symbol := by
  obtain ⟨c, rest, n, hl, htext⟩ := h
  rw [htext]
  obtain hk | hk | hk | hsym := lexeme?_kind hl
  · simp [hk]
  · simp [hk]
  · simp [hk]
  · exact symbol?_text hsym

/-! ### Question marks -/

/-- The tokens have a question mark just if the text has one. -/
theorem Reads.question_mem_iff (h : Reads seen pos text ts) :
    '?' ∈ text ↔ ∃ t ∈ ts, t.kind = .question := by
  induction h with
  | nil => simp
  | @blank _ _ c _ _ hb _ ih =>
    have hc : c ≠ '?' := by
      rintro rfl
      revert hb
      decide
    simp [ih, hc.symm]
  | @token _ _ _ n c rest kind ts _ hl _ _ ih =>
    have htail : '?' ∉ rest.take n := by
      intro hmem
      have hc := lexeme?_tail hl '?' hmem
      revert hc
      decide
    have hrest : '?' ∈ rest.take n ++ rest.drop n ↔ '?' ∈ rest.drop n := by
      rw [List.mem_append]
      exact or_iff_right htail
    rw [List.take_append_drop] at hrest
    simp [hrest, ih, lexeme?_eq_question_iff hl, eq_comm]

end Token

end Formula
