/-!
# Sets of code points

A set of characters is written down as a list of ranges of code points, in ascending order; the
tables of this library follow Unicode 17.  `CodeRanges.has` looks a code point up and stops at the
first range that starts after it, so that the small code points, which are nearly all that occur,
are found near the front.

* `CodeRanges.has_eq_false_of_has` shows two tables disjoint from the ranges of one of them.
-/

namespace Formula

namespace Text

/-- Ranges of code points, both ends included, in ascending order. -/
abbrev CodeRanges := List (Nat × Nat)

namespace CodeRanges

/-- The code point `n` lies in one of the ranges. -/
def has : CodeRanges → Nat → Bool
  | [], _ => false
  | (low, high) :: rest, n => if n < low then false else n ≤ high || has rest n

/-- A code point that is found lies in one of the ranges. -/
theorem exists_of_has {rs : CodeRanges} {n : Nat} (h : rs.has n = true) :
    ∃ r ∈ rs, r.1 ≤ n ∧ n ≤ r.2 := by
  induction rs with
  | nil => simp [has] at h
  | cons r rs ih =>
    simp only [has] at h
    split at h
    · simp at h
    · rcases Bool.or_eq_true_iff.1 h with h | h
      · exact ⟨r, List.mem_cons_self, by omega, of_decide_eq_true h⟩
      · obtain ⟨s, hs, hn⟩ := ih h
        exact ⟨s, List.mem_cons_of_mem _ hs, hn⟩

/-- Two tables are disjoint if the second has none of the code points in the ranges of the first. -/
theorem has_eq_false_of_has {rs ss : CodeRanges}
    (hdisjoint : ∀ r ∈ rs, ∀ k < r.2 + 1 - r.1, ss.has (r.1 + k) = false) {n : Nat}
    (h : rs.has n = true) : ss.has n = false := by
  obtain ⟨r, hr, hlow, hhigh⟩ := exists_of_has h
  simpa [Nat.add_sub_cancel' hlow] using hdisjoint r hr (n - r.1) (by omega)

end CodeRanges

end Text

end Formula
