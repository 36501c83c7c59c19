import Formula.Proofs.Continuation
import Formula.Proofs.Parsed
import Formula.Proofs.Relocation

/-!
# Blanks between tokens

Tokens may be spaced in any way.  If the texts of the tokens of a formula are written one after the
other with blanks between them, then each of them is read as the same token, wherever it stood
before, and the tree of the formula stays the same.

* `Token.Spaced` says that a text consists of the texts of tokens and of blanks.
* `Token.Reads.exists_of_spaced`: it is read as tokens with the same kinds and texts.
* **`Expr.parse_spaced`**: so it is read as the same tree, or as none.
-/

namespace Formula

namespace Token

/-- The texts of the tokens, each with blanks after it.  At least one blank stands between two of
them. -/
inductive Spaced : List Token → List Char → Prop
  | nil : Spaced [] []
  | cons {t : Token} {ts : List Token} {gap rest : List Char} :
      (∀ c ∈ gap, Text.isBlank c = true) → (ts ≠ [] → gap ≠ []) → Spaced ts rest →
      Spaced (t :: ts) (t.text.toList ++ (gap ++ rest))

variable {seen : Option String} {pos : Nat} {text body gap rest : List Char} {ts us : List Token}

/-- Blanks in front of a text are passed over. -/
theorem Reads.blanks (hgap : ∀ c ∈ gap, Text.isBlank c = true)
    (h : Reads seen (pos + gap.length) rest us) : Reads seen pos (gap ++ rest) us := by
  induction gap generalizing pos with
  | nil => exact h
  | cons c gap ih =>
    obtain ⟨hc, hgap⟩ := List.forall_mem_cons.1 hgap
    refine .blank hc (ih hgap ?_)
    rwa [Nat.add_assoc, Nat.add_comm 1]

/-- What follows a token goes on with a blank, if it goes on. -/
theorem Spaced.isBlank_head? (hgap : ∀ c ∈ gap, Text.isBlank c = true) (hne : ts ≠ [] → gap ≠ [])
    (h : Spaced ts rest) : ∀ c ∈ (gap ++ rest).head?, Text.isBlank c = true := by
  cases gap with
  | nil =>
    cases h with
    | nil => simp
    | cons => exact absurd rfl (hne (List.cons_ne_nil _ _))
  | cons d gap =>
    rintro c ⟨⟩
    exact hgap d List.mem_cons_self

/-- **Spaced tokens are read as the same tokens**, at other positions. -/
theorem Reads.exists_of_spaced (h : Reads seen pos text ts) (hbody : Spaced ts body)
    (hgap : ∀ c ∈ gap, Text.isBlank c = true) (pos' : Nat) :
    ∃ us, Reads seen pos' (gap ++ body) us ∧ SameSpelling us ts := by
  induction h generalizing gap body pos' with
  | nil =>
    cases hbody
    exact ⟨[], .blanks hgap .nil, rfl⟩
  | blank _ _ ih => exact ih hbody hgap pos'
  | @token seen seen' pos n c tail kind ts hb hl ht _ ih =>
    obtain ⟨w, tail, rfl, rfl⟩ := exists_append_of_lexeme? hl
    simp only [List.take_left] at ht hbody ⊢
    cases hbody with
    | @cons _ _ after rest hafter hne hrest =>
      rw [String.toList_ofList, List.cons_append]
      obtain ⟨us, hus, hspell⟩ := ih hrest hafter (pos' + gap.length + w.length + 1)
      have hfollows : Follows tail (after ++ rest) := fun d hd =>
        .inl (hrest.isBlank_head? hafter hne d hd)
      refine ⟨_, .blanks hgap (.token_append hb (lexeme?_append hl hfollows) ht hus), ?_⟩
      exact congrArg (List.cons _) hspell

end Token

namespace Expr

variable {source spaced : String} {gap body : List Char} {ts us : List Token} {e : Expr}

/-- Texts whose tokens are spelled in the same way have the same tree. -/
theorem parse_of_sameSpelling {source' : String} (h : Token.SameSpelling ts us)
    (hts : Token.read source = .ok ts) (hus : Token.read source' = .ok us)
    (he : parse source = .ok e) : parse source' = .ok e := by
  obtain ⟨ps, hps, hpost, hle⟩ := (parse_eq_ok_iff_of_read hts).1 he
  obtain ⟨qs, hqs, hspell⟩ := Postfix.exists_ofTokens_of_sameSpelling h hps
  have hbuild : ofPostfix qs = .ok e := by
    rw [← ofPostfix_of_sameSpelling hspell]
    exact hpost.ofPostfix hle
  exact (parse_eq_ok_iff_of_read hus).2 ⟨qs, hqs, ofPostfix_eq_ok_iff.1 hbuild⟩

/-- **Blanks between tokens are insignificant.**  The texts of the tokens of a formula, with blanks
before, between and after them, are read as as many tokens with the same kinds and texts, and as the
same tree, if there is one. -/
theorem parse_spaced (hread : Token.read source = .ok ts) (hgap : ∀ c ∈ gap, Text.isBlank c = true)
    (hbody : Token.Spaced ts body) (hspaced : spaced.toList = gap ++ body) :
    (∃ us, Token.read spaced = .ok us ∧ Token.SameSpelling us ts) ∧
      ∀ e, parse spaced = .ok e ↔ parse source = .ok e := by
  have hreads : Token.Reads none 0 source.toList ts := Token.reads_of_readFrom hread
  obtain ⟨us, hus, hspell⟩ := hreads.exists_of_spaced hbody hgap 0
  rw [← hspaced] at hus
  have hread' : Token.read spaced = .ok us := hus.readFrom
  refine ⟨⟨us, hread', hspell⟩, fun e => ⟨?_, ?_⟩⟩
  · exact parse_of_sameSpelling hspell hread' hread
  · exact parse_of_sameSpelling hspell.symm hread hread'

/-- The texts `π<=x` and `πx` with blanks of several kinds around their tokens.  The first one has a
tree, and in the second one a constant stands in front of a letter. -/
theorem parse_spaced_comparison :
    ((∃ us, Token.read "\t π\n <=\u3000x  " = .ok us ∧ Token.SameSpelling us
        [⟨.number, "π", 0⟩, ⟨.compare .le, "<=", 1⟩, ⟨.var, "x", 3⟩]) ∧
      ∃ e, parse "π<=x" = .ok e ∧ parse "\t π\n <=\u3000x  " = .ok e) ∧
    ∃ us, Token.read " π\u3000x" = .ok us ∧
      Token.SameSpelling us [⟨.number, "π", 0⟩, ⟨.var, "x", 1⟩] := by
  have hblank (w : List Char) (h : w.all Text.isBlank = true) : ∀ c ∈ w, Text.isBlank c = true :=
    List.all_eq_true.1 h
  have hne {c : Char} {w : List Char} {ts : List Token} : ts ≠ [] → c :: w ≠ [] :=
    fun _ => List.cons_ne_nil _ _
  have hcomparison : Token.read "π<=x" =
      .ok [⟨.number, "π", 0⟩, ⟨.compare .le, "<=", 1⟩, ⟨.var, "x", 3⟩] := by cbv
  have hspaced : Token.Spaced [⟨.number, "π", 0⟩, ⟨.compare .le, "<=", 1⟩, ⟨.var, "x", 3⟩]
      "π\n <=\u3000x  ".toList :=
    @Token.Spaced.cons _ _ ['\n', ' '] _ (hblank _ (by decide)) hne
      (@Token.Spaced.cons _ _ ['\u3000'] _ (hblank _ (by decide)) hne
        (@Token.Spaced.cons _ _ [' ', ' '] _ (hblank _ (by decide)) hne .nil))
  have hsplit : "\t π\n <=\u3000x  ".toList = ['\t', ' '] ++ "π\n <=\u3000x  ".toList := rfl
  have hparse : ∃ e, parse "π<=x" = .ok e :=
    ⟨_, parse_eq_ok_iff.2 ⟨_, _, hcomparison, rfl, ofPostfix_eq_ok_iff.1 rfl⟩⟩
  obtain ⟨e, he⟩ := hparse
  obtain ⟨hsame, hiff⟩ := parse_spaced hcomparison (hblank _ (by decide)) hspaced hsplit
  refine ⟨⟨hsame, e, he, (hiff e).2 he⟩, ?_⟩
  have hletter : Token.read "πx" = .ok [⟨.number, "π", 0⟩, ⟨.var, "x", 1⟩] := by decide +kernel
  have hspaced : Token.Spaced [⟨.number, "π", 0⟩, ⟨.var, "x", 1⟩] "π\u3000x".toList :=
    @Token.Spaced.cons _ _ ['\u3000'] _ (hblank _ (by decide)) hne
      (@Token.Spaced.cons _ _ [] _ (hblank _ (by decide)) (absurd rfl) .nil)
  have hsplit : " π\u3000x".toList = [' '] ++ "π\u3000x".toList := rfl
  exact (parse_spaced hletter (hblank _ (by decide)) hspaced hsplit).1

end Expr

end Formula
