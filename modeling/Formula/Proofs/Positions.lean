import Mathlib
import Formula.Proofs.Reading

/-!
# Where the tokens of a text stand

Reading loses nothing of a text but its blanks.  Each token stands where its position says, in the
order of the text and apart from the others; between the tokens there are blanks only, and a token
takes from the text all that it can.

* `Token.stop` and `Token.Covers` are the place of a token, and `Token.IsRun` and `Token.Longest`
  say that it does not stop too early.
* `Token.Cut` says where in a text a token was cut off, and `Token.Reads.exists_cut` that this is so
  of every token that is read.
* `Token.Reads.ordered` and `Token.Reads.exists_covers`: the tokens stand one after the other, and
  leave out nothing but blanks.
* `Token.Reads.flatMap_text`: the texts of the tokens are together the text without its blanks.
* **`Token.read_tiles`**: every text is refused, or is covered by its tokens up to blanks.
-/

namespace Formula

namespace Token

/-- The position after the last character of the token. -/
def stop (t : Token) : Nat := t.pos + t.text.length

/-- The token takes the character at position `i`. -/
def Covers (t : Token) (i : Nat) : Prop := t.pos ≤ i ∧ i < t.stop

/-- The token consists of such characters, and the text does not go on with another one. -/
structure IsRun (p : Char → Bool) (text : List Char) (t : Token) : Prop where
  all : ∀ c ∈ t.text.toList, p c = true
  ends : ∀ c, text[t.stop]? = some c → p c = false

/-- The token takes all that it can: digits and points to their end, a word to its end, and the `=`
that makes another comparison of `<` or `>`. -/
structure Longest (text : List Char) (t : Token) : Prop where
  number : t.kind = .number → t.text ∉ ["pi", "e", "π", "ℯ"] → t.IsRun isNumberChar text
  word : t.kind = .var ∨ t.kind = .func ∨ t.text = "pi" ∨ t.text = "e" →
    t.IsRun Text.isWordChar text
  order : t.text = "<" ∨ t.text = ">" → text[t.stop]? ≠ some '='

/-- The tokens stand in the text one after the other, with nothing but blanks around them. -/
structure Tiles (text : List Char) (ts : List Token) : Prop where
  spelled : ∀ t ∈ ts, t.text ≠ "" ∧ (text.drop t.pos).take t.text.length = t.text.toList
  ordered : ts.Pairwise fun t u => t.pos < u.pos ∧ t.stop ≤ u.pos
  blank_iff : ∀ i c, text[i]? = some c → (Text.isBlank c = true ↔ ∀ t ∈ ts, ¬t.Covers i)

variable {seen : Option String} {pos n i : Nat} {c d : Char} {source text rest : List Char}
  {k : Kind} {t : Token} {ts : List Token}

/-! ### The extent of a lexeme -/

/-- What follows a run is not of the run. -/
theorem eq_false_of_getElem?_takeWhile {p : Char → Bool}
    (h : rest[(rest.takeWhile p).length]? = some d) : p d = false := by
  induction rest with
  | nil => cases h
  | cons a rest ih =>
    cases ha : p a with
    | true => exact ih (by simpa [ha] using h)
    | false =>
      obtain rfl : a = d := by simpa [ha] using h
      exact ha

theorem lexeme?_length_le (h : lexeme? c rest = some (k, n)) : n ≤ rest.length := by
  have hrun (p : Char → Bool) : (rest.takeWhile p).length ≤ rest.length :=
    (List.takeWhile_prefix p).length_le
  obtain ⟨-, -, rfl⟩ | ⟨-, -, rfl⟩ | ⟨-, -, -, -, rfl⟩ | hsym := lexeme?_cases h
  · exact hrun _
  · exact Nat.zero_le _
  · exact hrun _
  · obtain rfl | ⟨rfl, hnext⟩ := symbol?_length hsym
    · exact Nat.zero_le _
    · cases rest with
      | nil => cases hnext
      | cons d rest => exact Nat.succ_le_succ (Nat.zero_le _)

/-- A token that is cut off stops behind its lexeme. -/
theorem stop_ofList (h : lexeme? c rest = some (k, n)) (pos : Nat) :
    stop ⟨k, String.ofList (c :: rest.take n), pos⟩ = pos + n + 1 := by
  rw [stop, String.length_ofList, List.length_cons, List.length_take,
    Nat.min_eq_left (lexeme?_length_le h), Nat.add_assoc]

/-- An `=` belongs to the order sign before it. -/
theorem lexeme?_order (hc : c = '<' ∨ c = '>') (h : lexeme? c ('=' :: rest) = some (k, n)) :
    n = 1 := by
  rcases hc with rfl | rfl
  · have hle : lexeme? '<' ('=' :: rest) = some (.compare .le, 1) := rfl
    rw [hle] at h
    cases h
    rfl
  · have hge : lexeme? '>' ('=' :: rest) = some (.compare .ge, 1) := rfl
    rw [hge] at h
    cases h
    rfl

theorem isBlank_eq_false_of_isNumberChar (h : isNumberChar d = true) : Text.isBlank d = false := by
  simp only [isNumberChar, Bool.or_eq_true, beq_iff_eq] at h
  rcases h with h | rfl
  · exact Text.isBlank_eq_false_of_isWordChar (Text.isWordChar_of_isDigit h)
  · decide

/-- There is no blank in a lexeme. -/
theorem isBlank_eq_false_of_lexeme? (h : lexeme? c rest = some (k, n)) (hd : d ∈ rest.take n) :
    Text.isBlank d = false := by
  rcases lexeme?_tail h d hd with hd | hd | rfl
  · exact isBlank_eq_false_of_isNumberChar hd
  · exact Text.isBlank_eq_false_of_isWordChar hd
  · decide

/-! ### The place of a token -/

/-- The token was cut off `source` where `c` and then `rest` stand, and took `n` characters of
`rest`. -/
structure Cut (source : List Char) (t : Token) (c : Char) (rest : List Char) (n : Nat) : Prop where
  drop_eq : source.drop t.pos = c :: rest
  blank : Text.isBlank c = false
  lexeme : lexeme? c rest = some (t.kind, n)
  text_eq : t.text = String.ofList (c :: rest.take n)

namespace Cut

variable (h : Cut source t c rest n)
include h

theorem toList_text : t.text.toList = c :: rest.take n := by
  rw [h.text_eq, String.toList_ofList]

theorem stop_eq : t.stop = t.pos + n + 1 := by
  rw [← stop_ofList h.lexeme, ← h.text_eq]

theorem length_text : t.text.length = n + 1 :=
  Nat.add_left_cancel (h.stop_eq.trans (Nat.add_assoc ..))

theorem getElem?_eq (i : Nat) : source[t.pos + i]? = (c :: rest)[i]? := by
  rw [← h.drop_eq, List.getElem?_drop]

/-- After the token stands what it did not take of `rest`. -/
theorem getElem?_stop : source[t.stop]? = rest[n]? := by
  rw [h.stop_eq, Nat.add_assoc, h.getElem?_eq, List.getElem?_cons_succ]

theorem spelled : t.text ≠ "" ∧ (source.drop t.pos).take t.text.length = t.text.toList := by
  constructor
  · intro hempty
    have hlength := h.length_text
    rw [hempty] at hlength
    cases hlength
  · rw [h.drop_eq, h.length_text, h.toList_text, List.take_succ_cons]

theorem isBlank_eq_false_of_mem (hd : d ∈ t.text.toList) : Text.isBlank d = false := by
  rw [h.toList_text] at hd
  cases hd with
  | head => exact h.blank
  | tail _ hd => exact isBlank_eq_false_of_lexeme? h.lexeme hd

theorem isBlank_eq_false_of_covers (hi : t.Covers i) (hd : source[i]? = some d) :
    Text.isBlank d = false := by
  obtain ⟨j, rfl⟩ := Nat.exists_eq_add_of_le hi.1
  have hlt : j < t.text.length := Nat.lt_of_add_lt_add_left hi.2
  apply h.isBlank_eq_false_of_mem
  rw [← h.spelled.2]
  refine List.mem_of_getElem? (i := j) ?_
  rw [List.getElem?_take_of_lt hlt, List.getElem?_drop, hd]

/-- A run that the lexeme takes to its end is a run of the text. -/
theorem isRun {p : Char → Bool} (hc : p c = true) (hn : n = (rest.takeWhile p).length) :
    t.IsRun p source where
  all := by
    rw [h.toList_text, hn, take_length_takeWhile]
    exact List.forall_mem_cons.2 ⟨hc, List.all_eq_true.1 List.all_takeWhile⟩
  ends := by
    intro d hd
    rw [h.getElem?_stop, hn] at hd
    exact eq_false_of_getElem?_takeWhile hd

theorem eq_of_text_eq {s : String} (ht : t.text = s) (hd : s.toList.head? = some d) : c = d := by
  rw [← ht, h.toList_text, List.head?_cons] at hd
  exact Option.some.inj hd

theorem isRun_number (hk : t.kind = .number) (ht : t.text ∉ ["pi", "e", "π", "ℯ"]) :
    t.IsRun isNumberChar source := by
  have htext := h.text_eq
  obtain ⟨hc, -, hn⟩ | ⟨hc, -, rfl⟩ | ⟨-, -, -, hword, hn⟩ | hsym := lexeme?_cases h.lexeme
  · exact h.isRun hc hn
  · -- one of the characters that stand for a constant by themselves
    rcases hc with rfl | rfl <;> exact absurd (by simp [htext]) ht
  · -- a word that is a number is the name of a constant
    rw [hn, take_length_takeWhile] at htext
    obtain ⟨-, hw | hw⟩ | ⟨hw, -⟩ | ⟨hw, -⟩ := wordKind_cases (c :: rest.takeWhile Text.isWordChar)
    · exact absurd (by simp [htext, hw]) ht
    · exact absurd (by simp [htext, hw]) ht
    · simp [hk, hw] at hword
    · simp [hk, hw] at hword
  · exact absurd hk (symbol?_kind hsym).1

theorem isRun_word (ht : t.kind = .var ∨ t.kind = .func ∨ t.text = "pi" ∨ t.text = "e") :
    t.IsRun Text.isWordChar source := by
  have hhead : t.kind = .var ∨ t.kind = .func ∨ c = 'p' ∨ c = 'e' := by
    refine ht.imp_right (.imp_right (.imp ?_ ?_))
    · intro hpi
      exact h.eq_of_text_eq hpi rfl
    · intro he
      exact h.eq_of_text_eq he rfl
  obtain ⟨hc, hk, -⟩ | ⟨hc, hk, -⟩ | ⟨hc, -, -, -, hn⟩ | hsym := lexeme?_cases h.lexeme
  · simp only [hk, reduceCtorEq, false_or] at hhead
    rcases hhead with rfl | rfl <;> exact absurd hc (by decide)
  · simp only [hk, reduceCtorEq, false_or] at hhead
    rcases hhead with rfl | rfl <;> exact absurd hc (by decide)
  · exact h.isRun (Text.isWordChar_of_isLetter hc) hn
  · obtain ⟨-, hvar, hfunc, -⟩ := symbol?_kind hsym
    rcases hhead with hk | hk | rfl | rfl
    · exact absurd hk hvar
    · exact absurd hk hfunc
    · cases hsym
    · cases hsym

theorem ne_of_order (ht : t.text = "<" ∨ t.text = ">") : source[t.stop]? ≠ some '=' := by
  rw [h.getElem?_stop]
  intro hnext
  have hc : c = '<' ∨ c = '>' := by
    refine ht.imp ?_ ?_
    · intro hlt
      exact h.eq_of_text_eq hlt rfl
    · intro hgt
      exact h.eq_of_text_eq hgt rfl
  have hlength : t.text.length = 1 := by rcases ht with ht | ht <;> rw [ht] <;> rfl
  obtain rfl : n = 0 := by simpa [h.length_text] using hlength
  -- an `=` right after the first character would have been taken too
  cases rest with
  | nil => cases hnext
  | cons d rest =>
    cases hnext
    exact absurd (lexeme?_order hc h.lexeme) (by decide)

/-- **A token takes all that it can.** -/
theorem longest : t.Longest source := ⟨h.isRun_number, h.isRun_word, h.ne_of_order⟩

end Cut

/-! ### All tokens -/

theorem drop_of_drop_eq_cons (h : source.drop pos = c :: rest) (n : Nat) :
    source.drop (pos + n + 1) = rest.drop n := by
  rw [Nat.add_assoc, ← List.drop_drop, h, List.drop_succ_cons]

theorem Reads.exists_cut (h : Reads seen pos text ts) (hs : source.drop pos = text) :
    ∀ t ∈ ts, ∃ c rest n, Cut source t c rest n := by
  induction h with
  | nil => simp
  | blank _ _ ih => exact ih (drop_of_drop_eq_cons hs 0)
  | @token _ _ _ n _ _ _ _ hb hl _ _ ih =>
    exact List.forall_mem_cons.2 ⟨⟨_, _, _, hs, hb, hl, rfl⟩, ih (drop_of_drop_eq_cons hs n)⟩

/-- The tokens stand one after the other. -/
theorem Reads.ordered (h : Reads seen pos text ts) :
    (∀ t ∈ ts, pos ≤ t.pos) ∧ ts.Pairwise fun t u => t.pos < u.pos ∧ t.stop ≤ u.pos := by
  induction h with
  | nil => exact ⟨by simp, .nil⟩
  | blank _ _ ih => exact ⟨fun t ht => Nat.le_of_succ_le (ih.1 t ht), ih.2⟩
  | @token _ _ pos n c rest k ts _ hl _ _ ih =>
    obtain ⟨hle, hpairs⟩ := ih
    refine ⟨List.forall_mem_cons.2 ⟨Nat.le_refl _, ?_⟩, List.pairwise_cons.2 ⟨?_, hpairs⟩⟩
    · intro u hu
      have hu := hle u hu
      omega
    · -- the tokens of the rest start where this one stops, or later
      intro u hu
      have hu := hle u hu
      rw [stop_ofList hl]
      exact ⟨Nat.lt_of_lt_of_le (Nat.lt_succ_of_le (Nat.le_add_right pos n)) hu, hu⟩

/-- No character but a blank is left out. -/
theorem Reads.exists_covers (h : Reads seen pos text ts) (hi : text[i]? = some d)
    (hd : Text.isBlank d = false) : ∃ t ∈ ts, t.Covers (pos + i) := by
  induction h generalizing i with
  | nil => cases hi
  | @blank _ pos c rest _ hb _ ih =>
    cases i with
    | zero =>
      cases hi
      rw [hb] at hd
      cases hd
    | succ i =>
      obtain ⟨t, ht, hcovers⟩ := ih hi
      rw [Nat.add_right_comm] at hcovers
      exact ⟨t, ht, hcovers⟩
  | @token _ _ pos n c rest k ts _ hl _ _ ih =>
    by_cases hin : i ≤ n
    · refine ⟨_, List.mem_cons_self, Nat.le_add_right _ _, ?_⟩
      rw [stop_ofList hl]
      omega
    · obtain ⟨j, rfl⟩ := Nat.exists_eq_add_of_lt (Nat.lt_of_not_le hin)
      rw [List.getElem?_cons_succ, ← List.getElem?_drop] at hi
      obtain ⟨t, ht, hcovers⟩ := ih hi
      refine ⟨t, List.mem_cons_of_mem _ ht, ?_⟩
      have hpos : pos + (n + j + 1) = pos + n + 1 + j := by omega
      rwa [hpos]

/-- **The texts of the tokens are the text without its blanks.** -/
theorem Reads.flatMap_text (h : Reads seen pos text ts) :
    ts.flatMap (fun t => t.text.toList) = text.filter (fun c => !Text.isBlank c) := by
  induction h with
  | nil => rfl
  | blank hb _ ih => rw [ih, List.filter_cons_of_neg (by simp [hb])]
  | @token _ _ pos n c rest k ts hb hl _ _ ih =>
    have htake : (rest.take n).filter (fun c => !Text.isBlank c) = rest.take n := by
      rw [List.filter_eq_self]
      intro d hd
      simp [isBlank_eq_false_of_lexeme? hl hd]
    calc
      _ = c :: rest.take n ++ (rest.drop n).filter (fun c => !Text.isBlank c) := by
        rw [List.flatMap_cons, String.toList_ofList, ih]
      _ = c :: (rest.take n ++ rest.drop n).filter (fun c => !Text.isBlank c) := by
        rw [List.filter_append, htake, List.cons_append]
      _ = (c :: rest).filter (fun c => !Text.isBlank c) := by
        rw [List.take_append_drop, List.filter_cons_of_pos (by simp [hb])]

/-- **Reading loses nothing but blanks.**  Every text is refused, or has tokens that spell it at
their positions, stand one after the other, and cover all characters that are not blank and no
blank.  The variables among them are all the same, and every token takes all that it can. -/
theorem read_tiles (source : String) :
    (∃ err, read source = .error err) ∨
      ∃ ts, read source = .ok ts ∧ Tiles source.toList ts ∧
        (∀ t ∈ ts, ∀ u ∈ ts, t.kind = .var → u.kind = .var → t.text = u.text) ∧
        ∀ t ∈ ts, t.Longest source.toList := by
  cases hread : read source with
  | error err => exact .inl ⟨err, rfl⟩
  | ok ts =>
    have hreads : Reads none 0 source.toList ts := reads_of_readFrom hread
    have hcut : ∀ t ∈ ts, ∃ c rest n, Cut source.toList t c rest n :=
      hreads.exists_cut List.drop_zero
    refine .inr ⟨ts, rfl, ⟨?_, hreads.ordered.2, ?_⟩, ?_, ?_⟩
    · intro t ht
      obtain ⟨c, rest, n, h⟩ := hcut t ht
      exact h.spelled
    · intro i c hc
      constructor
      · intro hblank t ht hcovers
        obtain ⟨_, _, _, h⟩ := hcut t ht
        rw [h.isBlank_eq_false_of_covers hcovers hc] at hblank
        cases hblank
      · intro hfree
        cases hblank : Text.isBlank c with
        | true => rfl
        | false =>
          obtain ⟨t, ht, hcovers⟩ := hreads.exists_covers hc hblank
          rw [Nat.zero_add] at hcovers
          exact absurd hcovers (hfree t ht)
    · intro t ht u hu htvar huvar
      obtain ⟨x, -, hx⟩ := hreads.exists_variable
      rw [hx t ht htvar, hx u hu huvar]
    · intro t ht
      obtain ⟨c, rest, n, h⟩ := hcut t ht
      exact h.longest

/-- In `1.5<= πx` the sign takes in the `=`, and the blank and `π` do not belong to a word. -/
theorem read_tiles_comparison :
    ∃ ts, read "1.5<= πx" = .ok ts ∧
      ts.map (fun t => (t.text, t.pos)) = [("1.5", 0), ("<=", 3), ("π", 6), ("x", 7)] ∧
      Tiles "1.5<= πx".toList ts ∧
      (∀ t ∈ ts, ∀ u ∈ ts, t.kind = .var → u.kind = .var → t.text = u.text) ∧
      ∀ t ∈ ts, t.Longest "1.5<= πx".toList := by
  have hread : read "1.5<= πx" = .ok [⟨.number, "1.5", 0⟩, ⟨.compare .le, "<=", 3⟩,
      ⟨.number, "π", 6⟩, ⟨.var, "x", 7⟩] := by cbv
  obtain ⟨err, herr⟩ | ⟨ts, hts, htiles, hvariable, hlongest⟩ := read_tiles "1.5<= πx"
  · rw [hread] at herr
    cases herr
  · rw [hread] at hts
    cases hts
    exact ⟨_, hread, rfl, htiles, hvariable, hlongest⟩

end Token

end Formula
