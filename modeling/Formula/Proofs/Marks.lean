import Formula.Proofs.Conservation
import Formula.Proofs.Reordering

/-!
# The marks of a conditional

What becomes of tokens is decided by their marks, the `?` and the `:`.  The first mark that cannot
belong to one conditional decides; if there is none, the tokens are a plain formula, a conditional
that lacks its `:`, or three parts with the two marks between them.

* `Token.Offends` says that a mark cannot belong to one conditional with the tokens before it, and
  `Token.Orderly` that none of the tokens does.
* `Token.orderly_or_exists_offends` and `Token.offence?_append_of_orderly`: the first offence is the
  one that `Token.offence?` finds.
* `Token.Splits` is what is due to tokens with such marks, and **`Token.split_eq_iff`** says that it
  is what they get.
* `Postfix.ordered` is a part of a formula in postfix order, and `Postfix.converted` puts together
  what becomes of the parts.
* **`Postfix.ofTokens_verdict`**: what becomes of a formula.
-/

namespace Formula

namespace Token

/-- The mark `t` cannot belong to one conditional with the tokens before it: it is a second `?`, or
a `:` that has no `?` before it or follows another `:`. -/
def Offends (before : List Token) (t : Token) : Prop :=
  (t.kind = .question ∧ ∃ u ∈ before, u.kind = .question) ∨
    (t.kind = .colon ∧
      ((∀ u ∈ before, u.kind ≠ .question) ∨ ∃ u ∈ before, u.kind = .colon))

/-- After the tokens `before`, none of the tokens `ts` offends. -/
def Orderly (before ts : List Token) : Prop :=
  ∀ us t vs, ts = us ++ t :: vs → ¬Offends (before ++ us) t

/-- The tokens are three parts without marks, with the marks `q` and `k` between them. -/
structure Cuts (ts cs : List Token) (q : Token) (ys : List Token) (k : Token)
    (ns : List Token) : Prop where
  append_eq : cs ++ [q] ++ ys ++ [k] ++ ns = ts
  question : q.kind = .question
  colon : k.kind = .colon
  test : Unmarked cs
  yes : Unmarked ys
  no : Unmarked ns

/-- What is due to tokens, by their marks. -/
inductive Splits : List Token → Except ConditionalError Parts → Prop
  | plain {ts : List Token} : Unmarked ts → Splits ts (.ok (.plain ts))
  | nested {us vs : List Token} {t : Token} : Orderly [] us → Offends us t → t.kind = .question →
      Splits (us ++ t :: vs) (.error (.nested t.pos))
  | strayColon {us vs : List Token} {t : Token} : Orderly [] us → Offends us t →
      t.kind = .colon → Splits (us ++ t :: vs) (.error (.strayColon t.pos))
  | missingColon {cs ys : List Token} {q : Token} : Unmarked cs → q.kind = .question →
      Unmarked ys → Splits (cs ++ q :: ys) (.error (.missingColon q.pos))
  | emptyPart {ts cs ys ns : List Token} {q k : Token} : Cuts ts cs q ys k ns →
      cs = [] ∨ ys = [] → Splits ts (.error (.emptyPart q.pos))
  | emptyLast {ts cs ys : List Token} {q k : Token} : Cuts ts cs q ys k [] → cs ≠ [] →
      ys ≠ [] → Splits ts (.error (.emptyPart k.pos))
  | conditional {ts cs ys ns : List Token} {q k : Token} : Cuts ts cs q ys k ns → cs ≠ [] →
      ys ≠ [] → ns ≠ [] → Splits ts (.ok (.conditional cs ys ns (choiceAt q.pos)))

variable {t q k : Token} {ts us vs cs ys ns : List Token} {parts : Except ConditionalError Parts}

/-! ### The first offence -/

theorem orderly_nil : Orderly us [] := by
  intro vs t ws h
  simp at h

theorem orderly_cons : Orderly us (t :: ts) ↔ ¬Offends us t ∧ Orderly (us ++ [t]) ts := by
  constructor
  · intro h
    refine ⟨by simpa using h [] t ts rfl, ?_⟩
    rintro vs u ws rfl
    rw [List.append_assoc]
    exact h (t :: vs) u ws rfl
  · rintro ⟨ht, hts⟩ vs u ws heq
    cases vs with
    | nil =>
      cases heq
      rwa [List.append_nil]
    | cons v vs =>
      cases heq
      have hu := hts vs u ws rfl
      rwa [List.append_assoc] at hu

theorem orderly_append : Orderly us (vs ++ ts) ↔ Orderly us vs ∧ Orderly (us ++ vs) ts := by
  induction vs generalizing us with
  | nil => simp [orderly_nil]
  | cons v vs ih =>
    rw [List.cons_append, orderly_cons, orderly_cons, ih, and_assoc, List.append_assoc,
      List.singleton_append]

/-- There is a first token that offends, or none does. -/
theorem orderly_or_exists_offends (us ts : List Token) :
    Orderly us ts ∨ ∃ vs t ws, ts = vs ++ t :: ws ∧ Orderly us vs ∧ Offends (us ++ vs) t := by
  induction ts generalizing us with
  | nil => exact .inl orderly_nil
  | cons t ts ih =>
    by_cases ht : Offends us t
    · exact .inr ⟨[], t, ts, rfl, orderly_nil, by rwa [List.append_nil]⟩
    · obtain hts | ⟨vs, u, ws, rfl, hvs, hu⟩ := ih (us ++ [t])
      · exact .inl (orderly_cons.2 ⟨ht, hts⟩)
      · refine .inr ⟨t :: vs, u, ws, rfl, orderly_cons.2 ⟨ht, hvs⟩, ?_⟩
        rwa [List.append_assoc] at hu

/-- A token of the kind is among the tokens. -/
def met (k : Kind) (ts : List Token) : Bool := ts.any (·.kind = k)

theorem met_concat (k : Kind) (ts : List Token) (t : Token) :
    met k (ts ++ [t]) = (met k ts || t.kind = k) := by
  simp [met]

/-- A mark offends by what has been met before it. -/
theorem offends_iff : Offends us t ↔ (t.kind = .question ∧ met .question us = true) ∨
    (t.kind = .colon ∧ (met .question us = false ∨ met .colon us = true)) := by
  simp [Offends, met]

/-- The error about a mark that offends. -/
def offence (t : Token) : ConditionalError :=
  if t.kind = .question then .nested t.pos else .strayColon t.pos

theorem offence_of_question (hk : t.kind = .question) : t.offence = .nested t.pos := if_pos hk

theorem offence_of_colon (hk : t.kind = .colon) : t.offence = .strayColon t.pos :=
  if_neg (by simp [hk])

theorem offence?_of_offends (h : Offends us t) :
    offence? (met .question us) (met .colon us) (t :: ts) = some t.offence := by
  obtain ⟨hk, hq⟩ | ⟨hk, hq | hc⟩ := offends_iff.1 h
  · simp [offence?, offence, hk, hq]
  · simp [offence?, offence, hk, hq]
  · simp [offence?, offence, hk, hc]

theorem offence?_of_not_offends (h : ¬Offends us t) :
    offence? (met .question us) (met .colon us) (t :: ts) =
      offence? (met .question (us ++ [t])) (met .colon (us ++ [t])) ts := by
  rw [offends_iff] at h
  obtain ⟨kind, text, pos⟩ := t
  cases kind <;> simp_all [offence?, met_concat]

theorem offence?_append_of_orderly (h : Orderly us vs) :
    offence? (met .question us) (met .colon us) (vs ++ ts) =
      offence? (met .question (us ++ vs)) (met .colon (us ++ vs)) ts := by
  induction vs generalizing us with
  | nil => rw [List.nil_append, List.append_nil]
  | cons v vs ih =>
    obtain ⟨hv, hvs⟩ := orderly_cons.1 h
    rw [List.cons_append, offence?_of_not_offends hv, ih hvs, List.append_assoc,
      List.singleton_append]

/-- The first mark that offends is found. -/
theorem offence?_append_cons (h : Orderly [] us) (ht : Offends us t) (vs : List Token) :
    offence? false false (us ++ t :: vs) = some t.offence := by
  have happend : offence? false false (us ++ t :: vs) =
      offence? (met .question us) (met .colon us) (t :: vs) := offence?_append_of_orderly h
  rw [happend, offence?_of_offends ht]

/-- A sign is no mark of a conditional, and neither is the operator that it was. -/
theorem offence?_markSignsFrom (question colon due : Bool) (ts : List Token) :
    offence? question colon (markSignsFrom due ts) = offence? question colon ts := by
  induction ts generalizing question colon due with
  | nil => rfl
  | cons t ts ih =>
    obtain hmark | ⟨⟨op, hop⟩, ⟨s, hs⟩⟩ := mark_cases due t
    · simp only [markSignsFrom, hmark, offence?, ih]
    · simp only [markSignsFrom, offence?, hop, hs, ih]

/-! ### The parts -/

theorem Orderly.ne_question (h : Orderly us ts) (hus : ∃ u ∈ us, u.kind = .question) :
    ∀ t ∈ ts, t.kind ≠ .question := by
  intro t ht hk
  obtain ⟨vs, ws, rfl⟩ := List.append_of_mem ht
  obtain ⟨u, hu, hkind⟩ := hus
  exact h vs t ws rfl (.inl ⟨hk, u, List.mem_append_left _ hu, hkind⟩)

theorem Orderly.ne_colon (h : Orderly us ts) (hus : ∃ u ∈ us, u.kind = .colon) :
    ∀ t ∈ ts, t.kind ≠ .colon := by
  intro t ht hk
  obtain ⟨vs, ws, rfl⟩ := List.append_of_mem ht
  obtain ⟨u, hu, hkind⟩ := hus
  exact h vs t ws rfl (.inr ⟨hk, .inr ⟨u, List.mem_append_left _ hu, hkind⟩⟩)

/-- Without a `?` there is no `:`. -/
theorem Orderly.unmarked (h : Orderly [] ts) (hts : ∀ t ∈ ts, t.kind ≠ .question) :
    Unmarked ts := by
  intro t ht
  refine ⟨hts t ht, fun hk => ?_⟩
  obtain ⟨vs, ws, rfl⟩ := List.append_of_mem ht
  exact h vs t ws rfl (.inr ⟨hk, .inl fun u hu => hts u (List.mem_append_left _ hu)⟩)

/-- The tokens up to the first of a kind, if there is one. -/
theorem exists_first_kind (k : Kind) (ts : List Token) :
    (∀ t ∈ ts, t.kind ≠ k) ∨
      ∃ us m vs, ts = us ++ m :: vs ∧ m.kind = k ∧ ∀ u ∈ us, u.kind ≠ k := by
  cases h : ts.dropWhile (·.kind ≠ k) with
  | nil => exact .inl (by simpa [List.dropWhile_eq_nil_iff] using h)
  | cons m vs =>
    obtain ⟨hts, hm⟩ := eq_span_kind h
    exact .inr ⟨_, m, vs, hts, hm, fun u hu => by simpa using List.mem_takeWhile_imp hu⟩

/-- Tokens of which none offends are a plain formula, lack a `:`, or are cut into three parts. -/
theorem Orderly.cases (h : Orderly [] ts) : Unmarked ts ∨
    (∃ cs q ys, ts = cs ++ q :: ys ∧ Unmarked cs ∧ q.kind = .question ∧ Unmarked ys) ∨
      ∃ cs q ys k ns, Cuts ts cs q ys k ns := by
  obtain hts | ⟨cs, q, rest, rfl, hq, hcs⟩ := exists_first_kind .question ts
  · exact .inl (h.unmarked hts)
  · obtain ⟨htest, hrest⟩ := orderly_append.1 h
    have hrest := (orderly_cons.1 hrest).2
    have hquestion := hrest.ne_question ⟨q, by simp, hq⟩
    obtain hcolon | ⟨ys, k, ns, rfl, hk, hys⟩ := exists_first_kind .colon rest
    · exact .inr (.inl ⟨cs, q, rest, rfl, htest.unmarked hcs, hq,
        fun t ht => ⟨hquestion t ht, hcolon t ht⟩⟩)
    · have hno := (orderly_cons.1 (orderly_append.1 hrest).2).2.ne_colon ⟨k, by simp, hk⟩
      refine .inr (.inr ⟨cs, q, ys, k, ns, by simp, hq, hk, htest.unmarked hcs, ?_, ?_⟩)
      · exact fun t ht => ⟨hquestion t (List.mem_append_left _ ht), hys t ht⟩
      · exact fun t ht => ⟨hquestion t (by simp [ht]), hno t ht⟩

/-- Something is due to all tokens. -/
theorem exists_splits (ts : List Token) : ∃ parts, Splits ts parts := by
  obtain hts | ⟨us, t, vs, rfl, hus, ht⟩ := orderly_or_exists_offends [] ts
  · obtain hts | ⟨cs, q, ys, rfl, hcs, hq, hys⟩ | ⟨cs, q, ys, k, ns, hcut⟩ := hts.cases
    · exact ⟨_, .plain hts⟩
    · exact ⟨_, .missingColon hcs hq hys⟩
    · by_cases hempty : cs = [] ∨ ys = []
      · exact ⟨_, .emptyPart hcut hempty⟩
      · obtain ⟨hc, hy⟩ := not_or.1 hempty
        by_cases hn : ns = []
        · subst hn
          exact ⟨_, .emptyLast hcut hc hy⟩
        · exact ⟨_, .conditional hcut hc hy hn⟩
  · obtain ⟨hk, -⟩ | ⟨hk, -⟩ := id ht
    · exact ⟨_, .nested hus ht hk⟩
    · exact ⟨_, .strayColon hus ht hk⟩

/-! ### What tokens get -/

theorem split_of_offence? {e : ConditionalError} (h : offence? false false ts = some e) :
    split ts = .error e := by
  simp only [split, h]

/-- The `?` of tokens without a `:` lacks it. -/
theorem split_of_missingColon (hcs : Unmarked cs) (hq : q.kind = .question) (hys : Unmarked ys) :
    split (cs ++ q :: ys) = .error (.missingColon q.pos) := by
  have ho : offence? false false (cs ++ q :: ys) = none := by
    rw [offence?_append hcs, offence?, hq]
    exact offence?_of_unmarked hys true false
  obtain ⟨-, hrest⟩ := span_kind (fun t ht => (hcs t ht).1) hq ys
  have hno : ys.dropWhile (·.kind ≠ .colon) = [] := by
    simpa [List.dropWhile_eq_nil_iff] using fun t ht => (hys t ht).2
  simp only [split, ho, hrest, hno]

theorem Cuts.eq (h : Cuts ts cs q ys k ns) : ts = cs ++ q :: (ys ++ k :: ns) := by
  simp [← h.append_eq]

theorem Cuts.split_eq (h : Cuts ts cs q ys k ns) : split ts =
    if cs = [] ∨ ys = [] then .error (.emptyPart q.pos)
    else if ns = [] then .error (.emptyPart k.pos)
    else .ok (.conditional cs ys ns (choiceAt q.pos)) := by
  rw [h.eq]
  exact split_of_cut h.question h.colon h.test h.yes h.no

/-- Tokens get what is due to them. -/
theorem Splits.split_eq (h : Splits ts parts) : split ts = parts := by
  cases h with
  | plain hts => exact split_of_unmarked hts
  | nested hus ht hk =>
    rw [split_of_offence? (offence?_append_cons hus ht _), offence_of_question hk]
  | strayColon hus ht hk =>
    rw [split_of_offence? (offence?_append_cons hus ht _), offence_of_colon hk]
  | missingColon hcs hq hys => exact split_of_missingColon hcs hq hys
  | emptyPart hcut hempty => rw [hcut.split_eq, if_pos hempty]
  | emptyLast hcut hc hy => rw [hcut.split_eq, if_neg (not_or.2 ⟨hc, hy⟩), if_pos rfl]
  | conditional hcut hc hy hn =>
    rw [hcut.split_eq, if_neg (not_or.2 ⟨hc, hy⟩), if_neg hn]

/-- **Tokens are cut by their marks.**  They get what is due to them, and nothing else is due. -/
theorem split_eq_iff : split ts = parts ↔ Splits ts parts := by
  refine ⟨?_, Splits.split_eq⟩
  rintro rfl
  obtain ⟨parts, hparts⟩ := exists_splits ts
  rwa [hparts.split_eq]

/-! ### Signs -/

/-- The parts with their signs marked, each by itself. -/
def Parts.markSigns : Parts → Parts
  | plain ts => plain (Token.markSigns ts)
  | conditional cs ys ns m =>
    conditional (Token.markSigns cs) (Token.markSigns ys) (Token.markSigns ns) m

theorem Unmarked.markSigns (h : Unmarked ts) : Unmarked (Token.markSigns ts) := by
  intro t ht
  obtain ht | ⟨s, hs⟩ := mem_markSignsFrom ht
  · exact h t ht
  · simp [hs]

theorem Cuts.markSigns (h : Cuts ts cs q ys k ns) :
    Cuts (Token.markSigns ts) (Token.markSigns cs) q (Token.markSigns ys) k
      (Token.markSigns ns) where
  append_eq := by
    rw [h.eq, Postfix.markSigns_conditional h.question h.colon]
    simp
  question := h.question
  colon := h.colon
  test := h.test.markSigns
  yes := h.yes.markSigns
  no := h.no.markSigns

/-- The first offence is found among the marked tokens as well. -/
theorem splits_markSigns_of_offends (hus : Orderly [] us) (ht : Offends us t) (vs : List Token) :
    Splits (Token.markSigns (us ++ t :: vs)) (.error t.offence) := by
  rw [← split_eq_iff]
  exact split_of_offence?
    ((offence?_markSignsFrom _ _ true _).trans (offence?_append_cons hus ht vs))

/-- The signs may be marked before the cut or after it. -/
theorem Splits.markSigns (h : Splits ts parts) :
    Splits (Token.markSigns ts) (parts.map Parts.markSigns) := by
  cases h with
  | plain hts => exact .plain hts.markSigns
  | @nested us vs t hus ht hk =>
    have herror := splits_markSigns_of_offends hus ht vs
    rwa [offence_of_question hk] at herror
  | @strayColon us vs t hus ht hk =>
    have herror := splits_markSigns_of_offends hus ht vs
    rwa [offence_of_colon hk] at herror
  | missingColon hcs hq hys =>
    rw [Token.markSigns, markSignsFrom_append_cons (by rw [hq]; rfl) (by rw [hq]; rfl)]
    exact .missingColon hcs.markSigns hq hys.markSigns
  | emptyPart hcut hempty =>
    refine .emptyPart hcut.markSigns (hempty.imp ?_ ?_)
    · exact congrArg Token.markSigns
    · exact congrArg Token.markSigns
  | emptyLast hcut hc hy =>
    exact .emptyLast hcut.markSigns (Postfix.markSigns_ne_nil hc) (Postfix.markSigns_ne_nil hy)
  | conditional hcut hc hy hn =>
    exact .conditional hcut.markSigns (Postfix.markSigns_ne_nil hc) (Postfix.markSigns_ne_nil hy)
      (Postfix.markSigns_ne_nil hn)

end Token

namespace Postfix

open Token (Parts)

/-- A plain formula in postfix order, with its signs marked. -/
def ordered (ts : List Token) : List Token := reorderFrom [] (Token.markSigns ts)

/-- What becomes of a formula that is cut at its marks.  The parts of a conditional each have to
leave one value, and their order is kept. -/
def converted : Except ConditionalError Parts → Except ConditionalError (List Token)
  | .error e => .error e
  | .ok (.plain ts) => .ok (ordered ts)
  | .ok (.conditional cs ys ns m) =>
    if ∀ us ∈ [cs, ys, ns], valueCount (ordered us) = some 1 then
      .ok (ordered cs ++ ordered ys ++ ordered ns ++ [m])
    else .error (.malformedPart m.pos)

variable {ts cs ys ns : List Token}

theorem reorder_markSigns (h : ∀ t ∈ ts, isMark t = false) :
    reorder (Token.markSigns ts) = .ok (ordered ts) :=
  reorder_eq_ok_iff.2 ⟨isMark_markSigns h, rfl⟩

theorem part_markSigns (h : ∀ t ∈ ts, isMark t = false) (pos : Nat) :
    part pos (Token.markSigns ts) =
      if valueCount (ordered ts) = some 1 then .ok (ordered ts)
      else .error (.malformedPart pos) := by
  simp only [part, reorder_markSigns h]

/-- The tokens are plain where they hold no `?`, no `:` and no token that stands for a conditional.
-/
theorem isMark_of_unmarked (hts : Token.Unmarked ts) (h : ∀ t ∈ ts, t.kind ≠ .choice) :
    ∀ t ∈ ts, isMark t = false :=
  fun t ht => isMark_eq_false_iff.2 ⟨(hts t ht).1, (hts t ht).2, h t ht⟩

/-- The parts are put into postfix order one after the other, and each has to leave one value. -/
theorem ofTokens_of_split {cs ys ns : List Token} {m : Token}
    (h : Token.split (Token.markSigns ts) =
      .ok (Parts.markSigns (.conditional cs ys ns m)))
    (hcs : ∀ t ∈ cs, isMark t = false) (hys : ∀ t ∈ ys, isMark t = false)
    (hns : ∀ t ∈ ns, isMark t = false) :
    ofTokens ts = converted (.ok (.conditional cs ys ns m)) := by
  simp only [ofTokens, h, Parts.markSigns, bind, Except.bind, part_markSigns hcs,
    part_markSigns hys, part_markSigns hns, converted, List.forall_mem_cons]
  by_cases hc : valueCount (ordered cs) = some 1
  · by_cases hy : valueCount (ordered ys) = some 1
    · by_cases hn : valueCount (ordered ns) = some 1
      · simp [hc, hy, hn, pure, Except.pure]
      · simp [hc, hy, hn]
    · simp [hc, hy]
  · simp [hc]

/-- Tokens are cut at their marks, and what becomes of them is put together from the parts. -/
theorem ofTokens_eq_converted (h : ∀ t ∈ ts, t.kind ≠ .choice) :
    ofTokens ts = converted (Token.split ts) := by
  obtain ⟨parts, hparts⟩ := Token.exists_splits ts
  have hsplit := hparts.markSigns.split_eq
  rw [hparts.split_eq]
  cases hparts with
  | plain hts =>
    have hplain := isMark_of_unmarked hts h
    exact (ofTokens_of_isMark hplain).trans (reorder_markSigns hplain)
  | conditional hcut =>
    have hpart {us : List Token} (hus : Token.Unmarked us) (hsub : us ⊆ ts) :
        ∀ t ∈ us, isMark t = false := isMark_of_unmarked hus fun t ht => h t (hsub ht)
    refine ofTokens_of_split hsplit (hpart hcut.test ?_) (hpart hcut.yes ?_) (hpart hcut.no ?_)
    all_goals
      intro t ht
      simp [hcut.eq, ht]
  | _ => simp only [ofTokens, hsplit, Except.map, bind, Except.bind, converted]

/-- No mark is left where a plain formula is due. -/
theorem converted_split_ne_strayMark (ts : List Token) (text : String) (pos : Nat) :
    converted (Token.split ts) ≠ .error (.strayMark text pos) := by
  obtain ⟨parts, hparts⟩ := Token.exists_splits ts
  rw [hparts.split_eq]
  cases hparts with
  | conditional _ _ _ _ =>
    simp only [converted]
    split_ifs <;> simp
  | _ => simp [converted]

/-- **What becomes of a formula.**  It is cut as its marks say, and what becomes of it depends on
the cut alone: an offence of the marks is reported as it is, a formula without marks is always put
into postfix order, and a conditional is if each part leaves one value. -/
theorem ofTokens_verdict (h : ∀ t ∈ ts, t.kind ≠ .choice) :
    (∀ parts, Token.split ts = parts ↔ Token.Splits ts parts) ∧
      ofTokens ts = converted (Token.split ts) ∧
      ∀ text pos, ofTokens ts ≠ .error (.strayMark text pos) := by
  refine ⟨fun parts => Token.split_eq_iff, ofTokens_eq_converted h, fun text pos => ?_⟩
  rw [ofTokens_eq_converted h]
  exact converted_split_ne_strayMark ts text pos

/-- In `x ? 1 : -2` the sign follows its operand in the last part. -/
theorem ofTokens_verdict_negative :
    ofTokens [⟨.var, "x", 0⟩, ⟨.question, "?", 1⟩, ⟨.number, "1", 2⟩, ⟨.colon, ":", 3⟩,
        ⟨.arith .sub, "-", 4⟩, ⟨.number, "2", 5⟩] =
      .ok [⟨.var, "x", 0⟩, ⟨.number, "1", 2⟩, ⟨.number, "2", 5⟩, ⟨.sign .minus, "u-", 4⟩,
        ⟨.choice, "?:", 1⟩] :=
  (ofTokens_verdict (by decide)).2.1.trans (by decide)

end Postfix

end Formula
