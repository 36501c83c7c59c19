import Formula.Proofs.Positions
import Formula.Proofs.Lexing

/-!
# How reading goes on

Reading looks one character ahead.  So a token is cut off in the same way in front of another text
if that goes on with the same character, or with a blank.

* `Token.Follows` says that one text may stand where another does, and **`Token.lexeme?_append`**
  that a token then stays the same.
* `Token.Reaches` says which tokens are read up to a point of a text.
* **`Token.Reaches.follow`**: these tokens depend on the next character only.  So they are the
  tokens of the text that ends there (`Token.Reaches.reads`).
* `Token.Reaches.known`: the variable that is known at the point is the one among the tokens.
-/

namespace Formula

namespace Token

variable {seen seen' : Option String} {pos n : Nat} {c d : Char} {w front rest rest' : List Char}
  {k : Kind} {t : Token} {ts : List Token} {err : LexicalError}

/-- The text `rest'` may stand where `rest` does: it is at its end, or goes on with a blank or with
the same character. -/
def Follows (rest rest' : List Char) : Prop :=
  ∀ d ∈ rest'.head?, Text.isBlank d = true ∨ d ∈ rest.head?

theorem Follows.append (h : Follows rest rest') (front : List Char) :
    Follows (front ++ rest) (front ++ rest') := by
  cases front with
  | nil => exact h
  | cons c front => exact fun d hd => .inr hd

/-! ### One token -/

theorem isNumberChar_of_isBlank (h : Text.isBlank d = true) : isNumberChar d = false := by
  rw [← Bool.not_eq_true]
  intro hd
  rw [isBlank_eq_false_of_isNumberChar hd] at h
  cases h

/-- A run that ends here ends here in front of another text. -/
theorem takeWhile_append_of_follows {p : Char → Bool}
    (hp : ∀ d, Text.isBlank d = true → p d = false)
    (hw : ((w ++ rest).takeWhile p).length = w.length) (hrest : Follows rest rest') :
    (w ++ rest).takeWhile p = w ∧ (w ++ rest').takeWhile p = w := by
  have hrun : (w ++ rest).takeWhile p = w :=
    (List.prefix_of_prefix_length_le (List.takeWhile_prefix p) (List.prefix_append w rest)
      hw.le).eq_of_length hw
  have hall : ∀ d ∈ w, p d = true := by
    rw [← hrun]
    exact List.all_eq_true.1 List.all_takeWhile
  have hhead : ∀ d ∈ rest'.head?, p d = false := by
    intro d hd
    rcases hrest d hd with hblank | hsame
    · exact hp d hblank
    · have hnext : (w ++ rest)[((w ++ rest).takeWhile p).length]? = some d := by
        rw [hw, List.getElem?_append_right (Nat.le_refl _), Nat.sub_self,
          ← List.head?_eq_getElem?]
        exact hsame
      exact eq_false_of_getElem?_takeWhile hnext
  exact ⟨hrun, (Number.span_append hall hhead).1⟩

/-- A symbol of one character stays one where no `=` follows. -/
theorem symbol?_of_ne {next next' : Option Char} (h : symbol? c next = some (k, 0))
    (hnext : next' ≠ some '=') : symbol? c next' = some (k, 0) := by
  unfold symbol? at h
  split at h <;> cases h
  all_goals try rfl
  all_goals
    -- an order sign alone
    unfold symbol?
    split <;> simp_all

theorem symbol?_append (h : symbol? c (w ++ rest).head? = some (k, w.length))
    (hrest : Follows rest rest') : symbol? c (w ++ rest').head? = some (k, w.length) := by
  cases w with
  | cons d w => exact h
  | nil =>
    rw [List.nil_append] at h ⊢
    cases hhead : rest'.head? with
    | none => exact symbol?_of_ne h nofun
    | some d =>
      rcases hrest d hhead with hblank | hsame
      · refine symbol?_of_ne h ?_
        rintro ⟨⟩
        revert hblank
        decide
      · rwa [← hsame]

/-- **A token is cut off in the same way in front of another text** that goes on with a blank, or
with the same character. -/
theorem lexeme?_append (h : lexeme? c (w ++ rest) = some (k, w.length))
    (hrest : Follows rest rest') : lexeme? c (w ++ rest') = some (k, w.length) := by
  unfold lexeme? at h ⊢
  split_ifs at h ⊢ with hnumber hconst hletter
  · simp only [Option.some.injEq, Prod.mk.injEq] at h ⊢
    rw [(takeWhile_append_of_follows (fun _ => isNumberChar_of_isBlank) h.2 hrest).2]
    exact ⟨h.1, rfl⟩
  · exact h
  · simp only [Option.some.injEq, Prod.mk.injEq] at h ⊢
    obtain ⟨hrun, hrun'⟩ :=
      takeWhile_append_of_follows (fun _ => Text.isWordChar_eq_false_of_isBlank) h.2 hrest
    rw [hrun']
    rwa [hrun] at h
  · exact symbol?_append h hrest

/-- Whether a token starts here shows in the next character. -/
theorem lexeme?_eq_none_of_head? (h : lexeme? c rest = none) (hrest : rest'.head? = rest.head?) :
    lexeme? c rest' = none := by
  unfold lexeme? at h ⊢
  split_ifs at h ⊢
  rw [hrest, h]

/-- The characters that a token takes after its first one, and those that it leaves. -/
theorem exists_append_of_lexeme? (h : lexeme? c rest = some (k, n)) :
    ∃ w tail, rest = w ++ tail ∧ n = w.length := by
  refine ⟨rest.take n, rest.drop n, (List.take_append_drop n rest).symm, ?_⟩
  rw [List.length_take, Nat.min_eq_left (lexeme?_length_le h)]

/-! ### The tokens up to a point -/

/-- The tokens are read from the text `front` at position `pos`, with `rest` after it, where `seen`
is the variable read before them and `seen'` the one that is known after them. -/
inductive Reaches (rest : List Char) :
    Option String → Nat → List Char → List Token → Option String → Prop
  | nil {seen : Option String} {pos : Nat} : Reaches rest seen pos [] [] seen
  | blank {seen seen' : Option String} {pos : Nat} {c : Char} {front : List Char}
      {ts : List Token} : Text.isBlank c = true → Reaches rest seen (pos + 1) front ts seen' →
      Reaches rest seen pos (c :: front) ts seen'
  | token {seen mid seen' : Option String} {pos : Nat} {c : Char} {w front : List Char}
      {kind : Kind} {ts : List Token} : Text.isBlank c = false →
      lexeme? c (w ++ (front ++ rest)) = some (kind, w.length) →
      track seen ⟨kind, String.ofList (c :: w), pos⟩ = .ok mid →
      Reaches rest mid (pos + w.length + 1) front ts seen' →
      Reaches rest seen pos (c :: (w ++ front)) (⟨kind, String.ofList (c :: w), pos⟩ :: ts) seen'

namespace Reaches

/-- The tokens up to a point depend on the next character only. -/
theorem follow (h : Reaches rest seen pos front ts seen') (hrest : Follows rest rest') :
    Reaches rest' seen pos front ts seen' := by
  induction h with
  | nil => exact .nil
  | blank hb _ ih => exact .blank hb ih
  | token hb hl ht _ ih => exact .token hb (lexeme?_append hl (hrest.append _)) ht ih

/-- The tokens up to a point are those of the text that ends there. -/
theorem reads (h : Reaches rest seen pos front ts seen') : Reads seen pos front ts := by
  have hnil : Follows rest [] := by simp [Follows]
  have hend := h.follow hnil
  clear h
  induction hend with
  | nil => exact .nil
  | blank hb _ ih => exact .blank hb ih
  | token hb hl ht _ ih =>
    rw [List.append_nil] at hl
    exact .token_append hb hl ht ih

/-- A text that is refused after some tokens is refused with them. -/
theorem readFrom_eq_error (h : Reaches rest seen pos front ts seen')
    (hrest : readFrom seen' (pos + front.length) rest = .error err) :
    readFrom seen pos (front ++ rest) = .error err := by
  induction h with
  | nil => exact hrest
  | @blank _ _ pos c front ts hb _ ih =>
    rw [List.cons_append, readFrom, if_pos hb]
    refine ih ?_
    rwa [Nat.add_assoc, Nat.add_comm 1]
  | @token _ _ _ pos c w front kind ts hb hl ht _ ih =>
    have hpos : pos + (c :: (w ++ front)).length = pos + w.length + 1 + front.length := by
      rw [List.length_cons, List.length_append]
      omega
    rw [hpos] at hrest
    rw [List.cons_append, List.append_assoc, readFrom, if_neg (by simp [hb]), hl]
    simp only [List.take_left, List.drop_left, ht, ih hrest, bind, Except.bind]

theorem exists_cut {source : List Char} (h : Reaches rest seen pos front ts seen')
    (hs : source.drop pos = front ++ rest) : ∀ t ∈ ts, ∃ c rest n, Cut source t c rest n := by
  induction h with
  | nil => simp
  | blank _ _ ih => exact ih (drop_of_drop_eq_cons hs 0)
  | @token _ _ _ _ _ w front _ _ hb hl _ _ ih =>
    rw [List.cons_append, List.append_assoc] at hs
    refine List.forall_mem_cons.2 ⟨⟨_, _, w.length, hs, hb, hl, by rw [List.take_left]⟩, ih ?_⟩
    rw [drop_of_drop_eq_cons hs w.length, List.drop_left]

/-- The variable that is known after the tokens is the only one among them, and one of them unless
it was known before. -/
theorem known (h : Reaches rest seen pos front ts seen') :
    (∀ x, seen = some x → seen' = some x) ∧ (∀ t ∈ ts, t.kind = .var → seen' = some t.text) ∧
      (seen' = seen ∨ ∃ t ∈ ts, t.kind = .var) := by
  induction h with
  | nil => exact ⟨fun _ hx => hx, by simp, .inl rfl⟩
  | blank _ _ ih => exact ih
  | @token _ _ _ _ _ _ _ kind ts _ _ ht _ ih =>
    obtain ⟨hseen, hvars, hsome⟩ := ih
    obtain ⟨hmid, hvar⟩ := track_spec ht
    refine ⟨fun x hx => hseen x (hmid x hx),
      List.forall_mem_cons.2 ⟨fun hk => hseen _ (hvar hk), hvars⟩, ?_⟩
    by_cases hk : kind = .var
    · exact .inr ⟨_, List.mem_cons_self, hk⟩
    · rw [track_of_ne_var hk] at ht
      cases ht
      exact hsome.imp_right fun ⟨t, ht, hk⟩ => ⟨t, List.mem_cons_of_mem _ ht, hk⟩

end Reaches

end Token

end Formula
