import Mathlib
import Formula.Interval
import Formula.Proofs.Number.Value

/-!
# Reading intervals

An interval is written as its two bounds with a `;` between them, in a pair of brackets or without
brackets, and with blanks around each of these.  No other text is an interval: the text of a number
holds neither blanks nor the characters `;`, `[` and `]`, so that there is only one way to take a
text apart.

* `Interval.Spells` says how the bounds of an interval are written.
* `Number.isNumeric_of_read?`: the characters of a number.
* `Text.trim_append` and `Text.exists_trim`: what trimming takes off.
* `Interval.read_of_inner` and `Interval.exists_inner_of_read`: what is between the brackets.
* **`Interval.read_spells`**: the texts that are read as intervals.
-/

namespace Formula

/-! ### The characters of a number -/

namespace Number

/-- The character occurs in the texts of numbers. -/
def isNumeric (c : Char) : Bool :=
  c.isDigit || c ∈ ['.', '+', '-'] || c.toLower ∈ ['e', 'i', 'n', 'f', 't', 'y', 'a']

variable {cs : List Char} {c : Char} {text : String} {v : Float}

theorem isNumeric_of_isDigit (h : c.isDigit = true) : isNumeric c = true := by
  simp [isNumeric, h]

theorem isNumeric_of_mem_takeWhile (h : c ∈ cs.takeWhile Char.isDigit) : isNumeric c = true :=
  isNumeric_of_isDigit (List.mem_takeWhile_imp h)

theorem isNumeric_of_natural? {n : Nat} (h : natural? cs = some n) :
    ∀ c ∈ cs, isNumeric c = true := by
  unfold natural? at h
  split at h
  · rename_i hcs
    exact fun c hc => isNumeric_of_isDigit (List.all_eq_true.1 hcs.2 c hc)
  · cases h

theorem isNumeric_of_exponent? {e : Int} (h : exponent? cs = some e) :
    ∀ c ∈ cs, isNumeric c = true := by
  have hnatural {ds : List Char} (h : natural? ds ≠ none) : ∀ c ∈ ds, isNumeric c = true := by
    obtain ⟨n, hn⟩ := Option.ne_none_iff_exists'.1 h
    exact isNumeric_of_natural? hn
  unfold exponent? at h
  split at h
  · simp
  · split at h
    · rename_i c cs he
      have hc : isNumeric c = true := by rcases he with rfl | rfl <;> decide
      refine List.forall_mem_cons.2 ⟨hc, ?_⟩
      split at h
      · refine List.forall_mem_cons.2 ⟨by decide, hnatural fun hnone => ?_⟩
        simp [hnone] at h
      · refine List.forall_mem_cons.2 ⟨by decide, hnatural fun hnone => ?_⟩
        simp [hnone] at h
      · refine hnatural fun hnone => ?_
        simp [hnone] at h
    · cases h

theorem isNumeric_of_assemble? {whole fraction rest : List Char} {d : Decimal}
    (h : assemble? whole fraction rest = some d) :
    whole ++ fraction ≠ [] ∧ ∀ c ∈ rest, isNumeric c = true := by
  unfold assemble? at h
  split at h
  · cases h
  · obtain ⟨e, he, -⟩ := Option.map_eq_some_iff.1 h
    exact ⟨‹_›, isNumeric_of_exponent? he⟩

theorem isNumeric_of_unsigned? {d : Decimal} (h : unsigned? cs = some d) :
    cs ≠ [] ∧ ∀ c ∈ cs, isNumeric c = true := by
  have hcs := List.takeWhile_append_dropWhile (p := Char.isDigit) (l := cs)
  unfold unsigned? at h
  split at h
  · rename_i rest hrest
    obtain ⟨-, hexponent⟩ := isNumeric_of_assemble? h
    rw [hrest] at hcs
    rw [← hcs, ← List.takeWhile_append_dropWhile (p := Char.isDigit) (l := rest)]
    refine ⟨by simp, ?_⟩
    simp only [List.mem_append, List.mem_cons]
    rintro c (hc | rfl | hc | hc)
    · exact isNumeric_of_mem_takeWhile hc
    · decide
    · exact isNumeric_of_mem_takeWhile hc
    · exact hexponent c hc
  · obtain ⟨hne, hexponent⟩ := isNumeric_of_assemble? h
    rw [List.append_nil] at hne
    rw [← hcs]
    refine ⟨List.append_ne_nil_of_left_ne_nil hne _, List.forall_mem_append.2 ⟨?_, hexponent⟩⟩
    exact fun c hc => isNumeric_of_mem_takeWhile hc

theorem isNumeric_of_magnitude? (h : magnitude? cs = some v) :
    cs ≠ [] ∧ ∀ c ∈ cs, isNumeric c = true := by
  have hword {word : String} (hword : cs.map Char.toLower = word.toList)
      (h : word.toList ≠ [] ∧ ∀ c ∈ word.toList, c ∈ ['e', 'i', 'n', 'f', 't', 'y', 'a']) :
      cs ≠ [] ∧ ∀ c ∈ cs, isNumeric c = true := by
    rw [← hword] at h
    refine ⟨by simpa using h.1, fun c hc => ?_⟩
    have hlower := h.2 c.toLower (List.mem_map_of_mem hc)
    rw [isNumeric, decide_eq_true hlower, Bool.or_true]
  unfold magnitude? at h
  split at h
  · exact isNumeric_of_unsigned? ‹_›
  · dsimp only at h
    split at h
    · rename_i hinf
      rcases hinf with hinf | hinf <;> exact hword hinf (by simp)
    · split at h
      · exact hword ‹_› (by simp)
      · cases h

/-- The text of a number is not empty, and has none but these characters. -/
theorem isNumeric_of_read? (h : read? text = some v) :
    text.toList ≠ [] ∧ ∀ c ∈ text.toList, isNumeric c = true := by
  unfold read? at h
  split at h
  · rename_i cs htext
    obtain ⟨w, hw, -⟩ := Option.map_eq_some_iff.1 h
    rw [htext]
    exact ⟨by simp, List.forall_mem_cons.2 ⟨by decide, (isNumeric_of_magnitude? hw).2⟩⟩
  · rename_i cs htext
    rw [htext]
    exact ⟨by simp, List.forall_mem_cons.2 ⟨by decide, (isNumeric_of_magnitude? h).2⟩⟩
  · exact isNumeric_of_magnitude? h

/-- The numeric characters come after most blanks and before the others. -/
theorem toNat_of_isNumeric (h : isNumeric c = true) : 43 ≤ c.toNat ∧ c.toNat ≤ 122 := by
  simp only [isNumeric, Bool.or_eq_true, decide_eq_true_eq] at h
  rcases h with (h | h) | h
  · have hlow : 48 ≤ c.toNat := (Char.isDigit_iff_toNat.1 h).1
    have hhigh : c.toNat ≤ 57 := (Char.isDigit_iff_toNat.1 h).2
    omega
  · simp only [List.mem_cons, List.not_mem_nil, or_false] at h
    rcases h with rfl | rfl | rfl <;> decide
  · unfold Char.toLower at h
    split at h
    · rename_i hupper
      have hlow : 65 ≤ c.toNat := hupper.1
      have hhigh : c.toNat ≤ 90 := hupper.2
      omega
    · simp only [List.mem_cons, List.not_mem_nil, or_false] at h
      rcases h with rfl | rfl | rfl | rfl | rfl | rfl | rfl <;> decide

theorem isBlank_of_isNumeric (h : isNumeric c = true) : Text.isBlank c = false := by
  rw [← Bool.not_eq_true]
  intro hblank
  obtain ⟨r, hr, hlow, hhigh⟩ := Text.CodeRanges.exists_of_has hblank
  have hranges : ∀ r ∈ Text.blankRanges, r.2 < 43 ∨ 122 < r.1 := by decide
  obtain hr | hr := hranges r hr <;> have hc := toNat_of_isNumeric h <;> omega

end Number

/-! ### Trimming -/

namespace Text

/-- There are only blanks among the characters. -/
def Blank (cs : List Char) : Prop := ∀ c ∈ cs, isBlank c = true

variable {cs us vs : List Char}

theorem Blank.append (hu : Blank us) (hv : Blank vs) : Blank (us ++ vs) :=
  List.forall_mem_append.2 ⟨hu, hv⟩

/-- The blanks around a text are taken off, and no more if it starts and ends with other
characters. -/
theorem trim_append (hu : Blank us) (hv : Blank vs) {c d : Char} (hfirst : cs.head? = some c)
    (hc : isBlank c = false) (hlast : cs.getLast? = some d) (hd : isBlank d = false) :
    trim (us ++ cs ++ vs) = cs := by
  have hfront : (us ++ cs ++ vs).dropWhile isBlank = cs ++ vs := by
    rw [List.append_assoc]
    refine (Number.span_append hu ?_).2
    simp [hfirst, hc]
  have hback : (vs.reverse ++ cs.reverse).dropWhile isBlank = cs.reverse := by
    refine (Number.span_append (fun b hb => hv b (List.mem_reverse.1 hb)) ?_).2
    simp [hlast, hd]
  rw [trim, hfront, List.reverse_append, hback, List.reverse_reverse]

/-- What is taken off a text is blanks. -/
theorem exists_trim (cs : List Char) :
    ∃ us vs, cs = us ++ trim cs ++ vs ∧ Blank us ∧ Blank vs := by
  refine ⟨cs.takeWhile isBlank, ((cs.dropWhile isBlank).reverse.takeWhile isBlank).reverse, ?_,
    fun c hc => List.mem_takeWhile_imp hc, fun c hc => ?_⟩
  · rw [trim, List.append_assoc, ← List.reverse_append, List.takeWhile_append_dropWhile,
      List.reverse_reverse, List.takeWhile_append_dropWhile]
  · exact List.mem_takeWhile_imp (List.mem_reverse.1 hc)

end Text

namespace Interval

open Text (Blank)

/-- The text spells an interval with these bounds. -/
inductive Spells : String → Float → Float → Prop
  | bracketed {w₁ w₂ w₃ w₄ w₅ w₆ p q : String} {low high : Float}
      (blank : ∀ w ∈ [w₁, w₂, w₃, w₄, w₅, w₆], Blank w.toList)
      (hp : Number.read? p = some low) (hq : Number.read? q = some high) :
      Spells (w₁ ++ "[" ++ w₂ ++ p ++ w₃ ++ ";" ++ w₄ ++ q ++ w₅ ++ "]" ++ w₆) low high
  | bare {w₁ w₂ w₃ w₄ w₅ w₆ p q : String} {low high : Float}
      (blank : ∀ w ∈ [w₁, w₂, w₃, w₄, w₅, w₆], Blank w.toList)
      (hp : Number.read? p = some low) (hq : Number.read? q = some high) :
      Spells (w₁ ++ w₂ ++ p ++ w₃ ++ ";" ++ w₄ ++ q ++ w₅ ++ w₆) low high

variable {text p : String} {us vs cs front back : List Char} {v low high : Float} {i : Interval}

/-! ### Bounds -/

/-- A bound has blanks around its text. -/
theorem readBound_append (hu : Blank us) (hv : Blank vs) (hp : Number.read? p = some v) :
    readBound (us ++ p.toList ++ vs) = .ok v := by
  obtain ⟨hne, hp'⟩ := Number.isNumeric_of_read? hp
  have hblank (c : Char) (hc : c ∈ p.toList) : Text.isBlank c = false :=
    Number.isBlank_of_isNumeric (hp' c hc)
  have htrim := Text.trim_append hu hv (List.head?_eq_some_head hne)
    (hblank _ (List.head_mem hne)) (List.getLast?_eq_some_getLast hne)
    (hblank _ (List.getLast_mem hne))
  simp only [readBound, htrim, String.ofList_toList, hp]

theorem exists_of_readBound (h : readBound cs = .ok v) :
    ∃ us p vs, cs = us ++ p.toList ++ vs ∧ Blank us ∧ Blank vs ∧ Number.read? p = some v := by
  obtain ⟨us, vs, hcs, hu, hv⟩ := Text.exists_trim cs
  refine ⟨us, String.ofList (Text.trim cs), vs, by rwa [String.toList_ofList], hu, hv, ?_⟩
  simp only [readBound] at h
  split at h
  · cases h
    assumption
  · cases h

/-- The characters around a bound are not those between the bounds. -/
theorem ne_semicolon (hu : Blank us) (hv : Blank vs) (hp : Number.read? p = some v) :
    ∀ c ∈ us ++ p.toList ++ vs, c ≠ ';' := by
  have hblank {ws : List Char} (hw : Blank ws) : ∀ c ∈ ws, c ≠ ';' := by
    rintro c hc rfl
    exact absurd (hw ';' hc) (by decide)
  refine List.forall_mem_append.2 ⟨List.forall_mem_append.2 ⟨hblank hu, ?_⟩, hblank hv⟩
  rintro c hc rfl
  exact absurd ((Number.isNumeric_of_read? hp).2 ';' hc) (by decide)

/-- The bounds of an interval are finite and in order. -/
theorem make_eq_ok_iff : make low high = .ok i ↔
    low.isFinite = true ∧ high.isFinite = true ∧ low ≤ high ∧ i = ⟨low, high⟩ := by
  unfold make
  cases hlow : low.isFinite with
  | false => simp
  | true =>
    cases hhigh : high.isFinite with
    | false => simp
    | true =>
      have hle : low ≤ high ↔ ¬low > high := by
        rw [gt_iff_lt, Number.le_iff hlow hhigh, Number.lt_iff hhigh hlow, not_lt]
      by_cases h : low > high <;> simp [h, hle, eq_comm]

/-! ### Brackets -/

theorem unbracket_brackets (cs : List Char) : unbracket ('[' :: (cs ++ [']'])) = cs := by
  simp [unbracket]

theorem unbracket_of_head? (h : cs.head? ≠ some '[') : unbracket cs = cs := by
  unfold unbracket
  split
  · simp at h
  · rfl

/-- Both brackets are taken off or none. -/
theorem unbracket_cases (cs : List Char) :
    cs = '[' :: (unbracket cs ++ [']']) ∨ unbracket cs = cs := by
  unfold unbracket
  split
  · split
    · rename_i rest hlast
      exact .inl (by rw [List.dropLast_append_getLast? _ hlast])
    · exact .inr rfl
  · exact .inr rfl

/-- The bounds are what stands before and after the first `;`. -/
theorem read_of_inner (hinner : unbracket (Text.trim text.toList) = front ++ ';' :: back)
    (hfront : ∀ c ∈ front, c ≠ ';') (hlow : readBound front = .ok low)
    (hhigh : readBound back = .ok high) : read text = make low high := by
  have hstop : ∀ c ∈ (';' :: back).head?, decide (c ≠ ';') = false := by simp
  obtain ⟨htake, hdrop⟩ :=
    Number.span_append (fun c hc => decide_eq_true (hfront c hc)) hstop
  simp only [read, hinner, htake, hdrop, hlow, hhigh, bind, Except.bind]

theorem exists_inner_of_read (h : read text = .ok i) :
    ∃ front back low high, unbracket (Text.trim text.toList) = front ++ ';' :: back ∧
      readBound front = .ok low ∧ readBound back = .ok high ∧ make low high = .ok i := by
  unfold read at h
  generalize hinner : unbracket (Text.trim text.toList) = inner at h
  have hsplit := List.takeWhile_append_dropWhile (p := fun c => decide (c ≠ ';')) (l := inner)
  have hhead := List.head?_dropWhile_not (fun c => decide (c ≠ ';')) inner
  dsimp only at h
  split at h
  · cases h
  · rename_i c rest hrest
    rw [hrest] at hsplit hhead
    obtain rfl : c = ';' := by simpa using hhead
    cases hlow : readBound (inner.takeWhile fun c => decide (c ≠ ';')) with
    | error e => simp only [hlow, bind, Except.bind, reduceCtorEq] at h
    | ok low =>
      cases hhigh : readBound rest with
      | error e => simp only [hlow, hhigh, bind, Except.bind, reduceCtorEq] at h
      | ok high =>
        simp only [hlow, hhigh, bind, Except.bind] at h
        exact ⟨_, rest, low, high, hsplit.symm, hlow, hhigh, h⟩

/-! ### Texts -/

/-- What spells an interval is read as it. -/
theorem Spells.read_eq (h : Spells text low high) : read text = make low high := by
  cases h with
  | @bracketed w₁ w₂ w₃ w₄ w₅ w₆ p q _ _ blank hp hq =>
    simp only [List.forall_mem_cons] at blank
    obtain ⟨h₁, h₂, h₃, h₄, h₅, h₆, -⟩ := blank
    let inner := w₂.toList ++ p.toList ++ w₃.toList ++ ';' :: (w₄.toList ++ q.toList ++ w₅.toList)
    have htext : (w₁ ++ "[" ++ w₂ ++ p ++ w₃ ++ ";" ++ w₄ ++ q ++ w₅ ++ "]" ++ w₆).toList =
        w₁.toList ++ '[' :: (inner ++ [']']) ++ w₆.toList := by
      simp [inner]
    have hlast : ('[' :: (inner ++ [']'])).getLast? = some ']' := by
      rw [← List.cons_append, List.getLast?_concat]
    have htrim : Text.trim (w₁.toList ++ '[' :: (inner ++ [']']) ++ w₆.toList) =
        '[' :: (inner ++ [']']) :=
      Text.trim_append h₁ h₆ List.head?_cons (by decide) hlast (by decide)
    refine read_of_inner ?_ (ne_semicolon h₂ h₃ hp) (readBound_append h₂ h₃ hp)
      (readBound_append h₄ h₅ hq)
    rw [htext, htrim, unbracket_brackets]
  | @bare w₁ w₂ w₃ w₄ w₅ w₆ p q _ _ blank hp hq =>
    simp only [List.forall_mem_cons] at blank
    obtain ⟨h₁, h₂, h₃, h₄, h₅, h₆, -⟩ := blank
    obtain ⟨hpne, hpchars⟩ := Number.isNumeric_of_read? hp
    obtain ⟨hqne, hqchars⟩ := Number.isNumeric_of_read? hq
    let inner := p.toList ++ w₃.toList ++ ';' :: (w₄.toList ++ q.toList)
    have htext : (w₁ ++ w₂ ++ p ++ w₃ ++ ";" ++ w₄ ++ q ++ w₅ ++ w₆).toList =
        w₁.toList ++ w₂.toList ++ inner ++ (w₅.toList ++ w₆.toList) := by
      simp [inner]
    have hfirst : inner.head? = some (p.toList.head hpne) := by
      simp [inner, List.head?_eq_some_head hpne]
    have hinner : inner = p.toList ++ w₃.toList ++ ';' :: w₄.toList ++ q.toList := by
      simp [inner]
    have hlast : inner.getLast? = some (q.toList.getLast hqne) := by
      rw [hinner, List.getLast?_append_of_ne_nil _ hqne, List.getLast?_eq_some_getLast hqne]
    have hnumeric := hpchars _ (List.head_mem hpne)
    have htrim := Text.trim_append (h₁.append h₂) (h₅.append h₆) hfirst
      (Number.isBlank_of_isNumeric hnumeric) hlast
      (Number.isBlank_of_isNumeric (hqchars _ (List.getLast_mem hqne)))
    have hhead : inner.head? ≠ some '[' := by
      rw [hfirst, Ne, Option.some.injEq]
      intro hbracket
      rw [hbracket] at hnumeric
      exact absurd hnumeric (by decide)
    have hnil : Blank [] := by simp [Blank]
    have hparts : unbracket (Text.trim (w₁ ++ w₂ ++ p ++ w₃ ++ ";" ++ w₄ ++ q ++ w₅ ++ w₆).toList) =
        ([] ++ p.toList ++ w₃.toList) ++ ';' :: (w₄.toList ++ q.toList ++ []) := by
      rw [htext, htrim, unbracket_of_head? hhead]
      simp [inner]
    exact read_of_inner hparts (ne_semicolon hnil h₃ hp) (readBound_append hnil h₃ hp)
      (readBound_append h₄ hnil hq)

/-- What is read as an interval spells it. -/
theorem exists_spells_of_read (h : read text = .ok i) :
    ∃ low high, Spells text low high ∧ make low high = .ok i := by
  obtain ⟨front, back, low, high, hinner, hlow, hhigh, hmake⟩ := exists_inner_of_read h
  obtain ⟨u₂, p, u₃, rfl, h₂, h₃, hp⟩ := exists_of_readBound hlow
  obtain ⟨u₄, q, u₅, rfl, h₄, h₅, hq⟩ := exists_of_readBound hhigh
  obtain ⟨u₁, u₆, htext, h₁, h₆⟩ := Text.exists_trim text.toList
  have hblank : ∀ w ∈ [String.ofList u₁, .ofList u₂, .ofList u₃, .ofList u₄, .ofList u₅,
      .ofList u₆], Blank w.toList := by
    simp only [List.forall_mem_cons, String.toList_ofList]
    exact ⟨h₁, h₂, h₃, h₄, h₅, h₆, by simp⟩
  refine ⟨low, high, ?_, hmake⟩
  obtain hcase | hcase := unbracket_cases (Text.trim text.toList)
  · convert Spells.bracketed hblank hp hq
    rw [hcase, hinner] at htext
    rw [← String.toList_inj, htext]
    simp
  · convert Spells.bare hblank hp hq
    rw [← hcase, hinner] at htext
    rw [← String.toList_inj, htext]
    simp

/-- **The texts that are read as intervals.**  A text that spells two bounds is read as the interval
with these bounds, or refused because of them.  A text that is read as an interval spells its
bounds, which are finite and in order.  What spells a number has neither blanks nor brackets nor a
`;`, so that a text spells its bounds in one way. -/
theorem read_spells (text : String) :
    (∀ low high, Spells text low high → read text = make low high) ∧
      (∀ i, read text = .ok i → (∃ low high, Spells text low high ∧ make low high = .ok i) ∧
        i.low.isFinite = true ∧ i.high.isFinite = true ∧ i.low ≤ i.high) ∧
      ∀ v, Number.read? text = some v →
        ∀ c ∈ text.toList, Text.isBlank c = false ∧ c ≠ ';' ∧ c ≠ '[' ∧ c ≠ ']' := by
  refine ⟨fun low high h => h.read_eq, fun i h => ?_, fun v h c hc => ?_⟩
  · obtain ⟨low, high, hspells, hmake⟩ := exists_spells_of_read h
    refine ⟨⟨low, high, hspells, hmake⟩, ?_⟩
    obtain ⟨hlow, hhigh, hle, rfl⟩ := make_eq_ok_iff.1 hmake
    exact ⟨hlow, hhigh, hle⟩
  · have hnumeric := (Number.isNumeric_of_read? h).2 c hc
    refine ⟨Number.isBlank_of_isNumeric hnumeric, ?_, ?_, ?_⟩ <;> rintro rfl <;>
      exact absurd hnumeric (by decide)

/-- An interval with blanks wherever they can stand. -/
theorem read_spells_blanks : Spells " [ -1 ; 2 ] " (-1) 2 ∧ read " [ -1 ; 2 ] " = .ok ⟨-1, 2⟩ ∧
    (-1 : Float) ≤ 2 ∧ Number.read? "-1" = some (-1) ∧ '-' ≠ ';' := by
  have hspace : Blank " ".toList := by
    intro c hc
    obtain rfl : c = ' ' := by simpa using hc
    decide
  have hblank : ∀ w ∈ [" ", " ", " ", " ", " ", " "], Blank w.toList := by
    simp only [List.forall_mem_cons, hspace, List.not_mem_nil, false_imp_iff, implies_true,
      and_self]
  have hlow : Number.read? "-1" = some (-1) := by decide +kernel
  have hhigh : Number.read? "2" = some 2 := by decide +kernel
  have hspells : Spells " [ -1 ; 2 ] " (-1) 2 := Spells.bracketed hblank hlow hhigh
  have hread : read " [ -1 ; 2 ] " = .ok ⟨-1, 2⟩ := (read_spells _).1 (-1) 2 hspells
  exact ⟨hspells, hread, ((read_spells _).2.1 ⟨-1, 2⟩ hread).2.2.2, hlow,
    ((read_spells "-1").2.2 (-1) hlow '-' (by decide)).2.1⟩

end Interval

end Formula
