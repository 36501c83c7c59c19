import Formula.Proofs.Continuation

/-!
# Where a text is refused

A text is refused at the first character that starts no token, or at the first variable that differs
from the one before it, whichever comes first.  The text before that point is read, and what comes
later than one character after it does not matter.

* `Token.Refuses` says that reading fails right here, and **`Token.exists_reaches_of_error`** that a
  text is refused at a point up to which it is read.
* `Token.Refuses.congr`: whether it is refused here shows in the next character.  So all texts that
  begin in the same way are refused alike (`Token.read_eq_error_of_agree`).
* `Token.lexeme?_eq_none_cases`: a character that is refused is a lone `=` or `!`, or starts no
  token in any text.
* **`Token.read_refused`**: what each of the two errors says of the text.
-/

namespace Formula

namespace Token

variable {seen seen' : Option String} {pos n : Nat} {c : Char} {k : Kind} {t : Token}
  {source text front rest rest' : List Char} {ts : List Token} {err : LexicalError}

/-! ### Failing at once -/

theorem track_eq_error (h : track seen t = .error err) :
    t.kind = .var ∧ ∃ first, seen = some first ∧ first ≠ t.text ∧
      err = .secondVariable first t.text := by
  unfold track at h
  split at h
  · cases h
  · split at h <;> cases h
    exact ⟨‹_›, _, rfl, ‹_›, rfl⟩
  · cases h

/-- A variable is one character. -/
theorem eq_zero_of_lexeme?_var (h : lexeme? c rest = some (.var, n)) : n = 0 := by
  obtain ⟨-, hk, -⟩ | ⟨-, hk, -⟩ | ⟨-, -, -, hk, rfl⟩ | hsym := lexeme?_cases h
  · cases hk
  · cases hk
  · obtain ⟨hw, -⟩ | ⟨-, -, hlength⟩ | ⟨hw, -⟩ :=
      wordKind_cases (c :: rest.takeWhile Text.isWordChar)
    · rw [hw] at hk
      cases hk
    · simpa using hlength
    · rw [hw] at hk
      cases hk
  · exact absurd rfl (symbol?_kind hsym).2.1

/-- Reading fails at the character `c`, which stands at position `pos` before `rest`: it starts no
token, or it is another variable than the one that was read before. -/
inductive Refuses (seen : Option String) (pos : Nat) (c : Char) (rest : List Char) :
    LexicalError → Prop
  | unexpectedChar : lexeme? c rest = none → Refuses seen pos c rest (.unexpectedChar c pos)
  | secondVariable {first : String} : lexeme? c rest = some (.var, 0) → seen = some first →
      first ≠ String.ofList [c] →
      Refuses seen pos c rest (.secondVariable first (String.ofList [c]))

theorem refuses_of_track (hl : lexeme? c rest = some (k, n))
    (h : track seen ⟨k, String.ofList (c :: rest.take n), pos⟩ = .error err) :
    Refuses seen pos c rest err := by
  obtain ⟨rfl, first, hseen, hne, rfl⟩ := track_eq_error h
  obtain rfl := eq_zero_of_lexeme?_var hl
  exact .secondVariable hl hseen hne

theorem Refuses.readFrom_eq_error (h : Refuses seen pos c rest err) (hc : Text.isBlank c = false) :
    readFrom seen pos (c :: rest) = .error err := by
  rw [readFrom, if_neg (by simp [hc])]
  cases h with
  | unexpectedChar hl => rw [hl]
  | secondVariable hl hseen hne =>
    simp only [hl, hseen, track, List.take_zero, if_neg hne, bind, Except.bind]

/-- Whether a text is refused here shows in the next character. -/
theorem Refuses.congr (h : Refuses seen pos c rest err) (hrest : rest'.head? = rest.head?) :
    Refuses seen pos c rest' err := by
  cases h with
  | unexpectedChar hl => exact .unexpectedChar (lexeme?_eq_none_of_head? hl hrest)
  | secondVariable hl hseen hne =>
    have hfollows : Follows rest rest' := fun d hd => .inr (by rwa [← hrest])
    exact .secondVariable (lexeme?_append (w := []) hl hfollows) hseen hne

/-- **A text is refused at a point up to which it is read.** -/
theorem exists_reaches_of_error (h : readFrom seen pos text = .error err) :
    ∃ front c rest ts seen', text = front ++ c :: rest ∧
      Reaches (c :: rest) seen pos front ts seen' ∧ Text.isBlank c = false ∧
      Refuses seen' (pos + front.length) c rest err := by
  -- the cases are the end of the text, a blank, a character that starts no token, and a token
  fun_induction readFrom seen pos text with
  | case1 => cases h
  | case2 seen pos c rest hb ih =>
    obtain ⟨front, d, tail, ts, seen', rfl, hreach, hd, herr⟩ := ih h
    rw [Nat.add_assoc, Nat.add_comm 1] at herr
    exact ⟨c :: front, d, tail, ts, seen', rfl, .blank hb hreach, hd, herr⟩
  | case3 seen pos c rest hb hl =>
    cases h
    exact ⟨[], c, rest, [], seen, rfl, .nil, Bool.eq_false_iff.2 hb, .unexpectedChar hl⟩
  | case4 seen pos c rest hb kind n hl t ih =>
    have hb := Bool.eq_false_iff.2 hb
    simp only [bind, Except.bind] at h
    split at h
    · cases h
      exact ⟨[], c, rest, [], seen, rfl, .nil, hb, refuses_of_track hl ‹track seen t = _›⟩
    · split at h
      · cases h
        have htrack := ‹track seen t = _›
        obtain ⟨front, d, tail, ts, seen', hrest, hreach, hd, herr⟩ := ih _ ‹_›
        obtain ⟨w, rest', rfl, rfl⟩ := exists_append_of_lexeme? hl
        rw [List.drop_left] at hrest
        simp only [t, List.take_left] at htrack
        subst hrest
        have hpos : pos + w.length + 1 + front.length = pos + (c :: (w ++ front)).length := by
          rw [List.length_cons, List.length_append]
          omega
        rw [hpos] at herr
        refine ⟨c :: (w ++ front), d, tail, _, seen', ?_, .token hb hl htrack hreach, hd, herr⟩
        rw [List.cons_append, List.append_assoc]
      · cases h

/-! ### Texts that begin in the same way -/

/-- A text that agrees with another one up to one position after a character begins with the same
characters, and the same one follows. -/
theorem exists_eq_append_cons {other : List Char}
    (h : ∀ i ≤ front.length + 1, other[i]? = (front ++ c :: rest)[i]?) :
    ∃ rest', other = front ++ c :: rest' ∧ rest'.head? = rest.head? := by
  induction front generalizing other with
  | nil =>
    cases other with
    | nil => cases h 0 (Nat.zero_le _)
    | cons d rest' =>
      obtain rfl : d = c := Option.some.inj (h 0 (Nat.zero_le _))
      refine ⟨rest', rfl, ?_⟩
      rw [List.head?_eq_getElem?, List.head?_eq_getElem?]
      exact h 1 (Nat.le_refl _)
  | cons a front ih =>
    cases other with
    | nil => cases h 0 (Nat.zero_le _)
    | cons d rest' =>
      obtain rfl : d = a := Option.some.inj (h 0 (Nat.zero_le _))
      obtain ⟨tail, rfl, hhead⟩ := ih fun i hi => h (i + 1) (Nat.succ_le_succ hi)
      exact ⟨tail, rfl, hhead⟩

/-- **All texts that begin in the same way are refused alike.** -/
theorem read_eq_error_of_agree {other : String}
    (hreach : Reaches (c :: rest) none 0 front ts seen) (hc : Text.isBlank c = false)
    (h : Refuses seen front.length c rest err)
    (hother : ∀ i ≤ front.length + 1, other.toList[i]? = (front ++ c :: rest)[i]?) :
    read other = .error err := by
  obtain ⟨rest', htext, hhead⟩ := exists_eq_append_cons hother
  have hreach' : Reaches (c :: rest') none 0 front ts seen := hreach.follow fun d hd => .inr hd
  rw [read, htext]
  refine hreach'.readFrom_eq_error ?_
  rw [Nat.zero_add]
  exact (h.congr hhead).readFrom_eq_error hc

/-- A text is refused at a point, and all texts that begin in the same way are as well. -/
theorem exists_refuses_of_read {source : String} (h : read source = .error err) :
    ∃ front c rest ts seen, source.toList = front ++ c :: rest ∧
      Reaches (c :: rest) none 0 front ts seen ∧ Text.isBlank c = false ∧
      Refuses seen front.length c rest err ∧
      ∀ other : String, (∀ i ≤ front.length + 1, other.toList[i]? = source.toList[i]?) →
        read other = .error err := by
  obtain ⟨front, c, rest, ts, seen, htext, hreach, hc, herr⟩ := exists_reaches_of_error h
  rw [Nat.zero_add] at herr
  refine ⟨front, c, rest, ts, seen, htext, hreach, hc, herr, fun other hother => ?_⟩
  rw [htext] at hother
  exact read_eq_error_of_agree hreach hc herr hother

/-! ### The characters that start no token -/

/-- A character that is refused as a symbol is refused always, or lacks an `=`. -/
theorem symbol?_eq_none_cases {next : Option Char} (h : symbol? c next = none) :
    (c = '=' ∨ c = '!') ∧ next ≠ some '=' ∨ ∀ next, symbol? c next = none := by
  by_cases hc : c = '=' ∨ c = '!'
  · refine .inl ⟨hc, ?_⟩
    rintro rfl
    rcases hc with rfl | rfl <;> cases h
  · refine .inr fun next' => ?_
    rw [not_or] at hc
    unfold symbol? at h ⊢
    split at h <;> cases h
    split <;> simp_all

theorem lexeme?_eq_none_cases (h : lexeme? c rest = none) :
    (c = '=' ∨ c = '!') ∧ rest.head? ≠ some '=' ∨ ∀ cs, lexeme? c cs = none := by
  unfold lexeme? at h ⊢
  split_ifs at h ⊢
  exact (symbol?_eq_none_cases h).imp_right fun hall cs => hall cs.head?

/-! ### The two errors -/

/-- The tokens are those of the text up to position `p`, and each of them takes all that it can of
the whole text. -/
structure ReadUpTo (text : List Char) (p : Nat) (ts : List Token) : Prop where
  read_eq : read (String.ofList (text.take p)) = .ok ts
  longest : ∀ t ∈ ts, t.Longest text

theorem Reaches.readUpTo (h : Reaches rest none 0 front ts seen) :
    ReadUpTo (front ++ rest) front.length ts where
  read_eq := by
    rw [List.take_left, read, String.toList_ofList]
    exact h.reads.readFrom
  longest t ht := by
    obtain ⟨c, tail, n, hcut⟩ := h.exists_cut List.drop_zero t ht
    exact hcut.longest

/-- **A text is refused at its first offence.**  An unexpected character stands where the error
says. The text before it is read, the character is a lone `=` or `!` or is refused at the start of
any text, and all texts that agree up to the position after it get the same error.  In the same way
a second variable stands at the end of a text that is read and has variables, which are all the
first one. -/
theorem read_refused (source : String) :
    (∀ ch pos, read source = .error (.unexpectedChar ch pos) →
      source.toList[pos]? = some ch ∧ (∃ ts, ReadUpTo source.toList pos ts) ∧
      ((ch = '=' ∨ ch = '!') ∧ source.toList[pos + 1]? ≠ some '=' ∨
        Text.isBlank ch = false ∧
          ∀ cs, read (String.ofList (ch :: cs)) = .error (.unexpectedChar ch 0)) ∧
      ∀ other : String, (∀ i ≤ pos + 1, other.toList[i]? = source.toList[i]?) →
        read other = .error (.unexpectedChar ch pos)) ∧
    ∀ first second, read source = .error (.secondVariable first second) →
      ∃ p ts, ReadUpTo source.toList p ts ∧ VarName second ∧
        source.toList[p]? = second.toList.head? ∧ Longest source.toList ⟨.var, second, p⟩ ∧
        second ≠ first ∧ (∃ t ∈ ts, t.kind = .var) ∧ (∀ t ∈ ts, t.kind = .var → t.text = first) ∧
        ∀ other : String, (∀ i ≤ p + 1, other.toList[i]? = source.toList[i]?) →
          read other = .error (.secondVariable first second) := by
  constructor
  · intro ch pos h
    obtain ⟨front, c, rest, ts, seen, htext, hreach, hblank, herr, hagree⟩ :=
      exists_refuses_of_read h
    have hnext : (front ++ c :: rest)[front.length + 1]? = rest.head? := by
      simp [List.getElem?_append_right, List.head?_eq_getElem?]
    rw [htext] at hagree ⊢
    cases herr with
    | unexpectedChar hl =>
      refine ⟨by simp, ⟨ts, hreach.readUpTo⟩, ?_, hagree⟩
      rw [hnext]
      refine (lexeme?_eq_none_cases hl).imp_right fun hall => ⟨hblank, fun cs => ?_⟩
      rw [read, String.toList_ofList]
      exact (Refuses.unexpectedChar (hall cs)).readFrom_eq_error hblank
  · intro first second h
    obtain ⟨front, c, rest, ts, seen, htext, hreach, hblank, herr, hagree⟩ :=
      exists_refuses_of_read h
    rw [htext] at hagree ⊢
    cases herr with
    | secondVariable hl hseen hne =>
      obtain ⟨-, hvars, hsome⟩ := hreach.known
      have hcut : Cut (front ++ c :: rest) ⟨.var, String.ofList [c], front.length⟩ c rest 0 :=
        ⟨List.drop_left, hblank, hl, rfl⟩
      have hname : VarName (String.ofList [c]) :=
        IsLexeme.var (t := ⟨.var, String.ofList [c], front.length⟩) ⟨c, rest, 0, hl, rfl⟩ rfl
      refine ⟨front.length, ts, hreach.readUpTo, hname, by simp, hcut.longest, hne.symm,
        hsome.resolve_left (by simp [hseen]), ?_, hagree⟩
      intro t ht hk
      exact Option.some.inj ((hvars t ht hk).symm.trans hseen)

/-- Texts that begin with `2x = ` are refused for the lone `=`, and `x+y=1` is refused for its
second variable before that. -/
theorem read_refused_equation :
    (∀ other : String, (∀ i ≤ 4, other.toList[i]? = "2x = y".toList[i]?) →
      read other = .error (.unexpectedChar '=' 3)) ∧
    ∃ p ts, ReadUpTo "x+y=1".toList p ts ∧ "x+y=1".toList[p]? = some 'y' ∧
      (∃ t ∈ ts, t.kind = .var) ∧ ∀ t ∈ ts, t.kind = .var → t.text = "x" := by
  constructor
  · have hread : read "2x = y" = .error (.unexpectedChar '=' 3) := by cbv
    exact ((read_refused _).1 _ _ hread).2.2.2
  · have hread : read "x+y=1" = .error (.secondVariable "x" "y") := by cbv
    obtain ⟨p, ts, hts, -, hp, -, -, hsome, hfirst, -⟩ := (read_refused _).2 _ _ hread
    exact ⟨p, ts, hts, hp, hsome, hfirst⟩

end Token

end Formula
