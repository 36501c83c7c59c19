import Mathlib
import Formula.Scan

/-!
# Drawing from a scan

A draw passes over some samples and delivers the ones after them.  Whatever the draws, a scan
answers as its list of samples would: the position counts the samples that have been delivered or
passed over, up to the end, and each draw is about the samples from there on.

* `Scan.draw`, `Scan.drawAll`: one draw, and draws in turn.
* `Scan.grid`: the samples of a scan, whatever its position.
* `Scan.draw_eq` (one draw) and `Scan.snd_drawAll` (a run): where a scan gets to.
* **`Scan.drawAll_start`**: a scan delivers each point of its interval once and in order, and knows
  how many are still to come.
-/

namespace Formula

namespace Scan

/-- A way of drawing samples from a scan. -/
inductive Draw where
  | next
  | take (n : Nat)
  /-- Pass over `n` samples and draw the one after them. -/
  | nth (n : Nat)

namespace Draw

/-- The number of samples that a draw passes over. -/
def passed : Draw → Nat
  | next | take _ => 0
  | nth n => n

/-- The number of samples that a draw delivers, if there are as many. -/
def wanted : Draw → Nat
  | next | nth _ => 1
  | take n => n

/-- The number of positions by which draws in turn move a scan, if it is long enough. -/
def reach (ds : List Draw) : Nat := (ds.map fun d => d.passed + d.wanted).sum

@[simp] theorem reach_nil : reach [] = 0 := rfl

@[simp] theorem reach_cons (d : Draw) (ds : List Draw) :
    reach (d :: ds) = d.passed + d.wanted + reach ds := by
  simp only [reach, List.map_cons, List.sum_cons]

end Draw

/-- The samples that a draw delivers, and the scan after it. -/
def draw (s : Scan) : Draw → List Sample × Scan
  | .next =>
    match s.next? with
    | none => ([], s)
    | some (p, s) => ([p], s)
  | .take n => s.take n
  | .nth n =>
    let (p?, s) := s.nth n
    (p?.toList, s)

/-- The samples that draws in turn deliver, and the scan after them. -/
def drawAll (s : Scan) : List Draw → List Sample × Scan
  | [] => ([], s)
  | d :: ds =>
    let (ps, s) := s.draw d
    let (qs, s) := s.drawAll ds
    (ps ++ qs, s)

variable {curve : Curve} {i : Interval} {step : Float} {s₀ : Scan}

/-! ### Positions -/

/-- The scan moved to position `n`, or to its end. -/
def seek (s : Scan) (n : Nat) : Scan :=
  { s with position := min n s.length, position_le_length := Nat.min_le_right .. }

@[simp] theorem length_seek (s : Scan) (n : Nat) : (s.seek n).length = s.length := rfl

@[simp] theorem position_seek (s : Scan) (n : Nat) : (s.seek n).position = min n s.length := rfl

theorem seek_position (s : Scan) : s.seek s.position = s := by
  simp only [seek, Nat.min_eq_left s.position_le_length]

theorem seek_seek (s : Scan) (m n : Nat) : (s.seek m).seek n = s.seek n := rfl

theorem seek_congr (s : Scan) {m n : Nat} (h : min m s.length = min n s.length) :
    s.seek m = s.seek n := by
  simp only [seek, h]

theorem skip_eq_seek (n : Nat) (s : Scan) : s.skip n = s.seek (s.position + n) := skip_eq n s

/-! ### The samples of a scan -/

/-- The samples of a scan, from its first position to its end. -/
def grid (s : Scan) : List Sample := (List.range s.length).map s.sample

@[simp] theorem length_grid (s : Scan) : s.grid.length = s.length := by
  simp only [grid, List.length_map, List.length_range]

@[simp] theorem grid_seek (s : Scan) (n : Nat) : (s.seek n).grid = s.grid := rfl

theorem getElem?_grid (s : Scan) (n : Nat) :
    s.grid[n]? = if n < s.length then some (s.sample n) else none := by
  simp only [grid, List.getElem?_map]
  split
  · rename_i h
    rw [List.getElem?_range h, Option.map_some]
  · rename_i h
    rw [List.getElem?_eq_none (by simpa using h), Option.map_none]

/-- The end of a scan is the end of its samples. -/
theorem drop_min_grid (s : Scan) (n : Nat) : s.grid.drop (min n s.length) = s.grid.drop n := by
  by_cases h : n ≤ s.length
  · rw [Nat.min_eq_left h]
  · rw [List.drop_of_length_le (by simp; omega), List.drop_of_length_le (by simp; omega)]

theorem take_drop_grid (s : Scan) (p n : Nat) :
    (s.grid.drop p).take n = (List.range' p (min n (s.length - p))).map s.sample := by
  simp only [grid, ← List.map_drop, ← List.map_take, List.range_eq_range', List.drop_range',
    Nat.mul_one, Nat.zero_add]
  rcases Nat.le_total n (s.length - p) with h | h
  · rw [Nat.min_eq_left h, List.take_range'_of_length_ge h]
  · rw [Nat.min_eq_right h, List.take_range'_of_length_le h]

/-! ### One draw -/

theorem next?_eq (s : Scan) :
    s.next? = (s.grid[s.position]?).map (·, s.seek (s.position + 1)) := by
  rw [getElem?_grid]
  simp only [next?, advance?]
  split
  · rename_i h
    simp only [Option.map_some, seek, Nat.min_eq_left (Nat.succ_le_of_lt h)]
  · rfl

theorem take_eq (n : Nat) (s : Scan) :
    s.take n = ((s.grid.drop s.position).take n, s.seek (s.position + n)) := by
  refine Prod.ext ?_ ((snd_take n s).trans (skip_eq_seek n s))
  induction n generalizing s with
  | zero => rw [List.take_zero]; rfl
  | succ n ih =>
    simp only [take, next?_eq]
    cases hp : s.grid[s.position]? with
    | none => rw [List.drop_of_length_le (List.getElem?_eq_none_iff.1 hp), List.take_nil]; rfl
    | some p =>
      obtain ⟨h, rfl⟩ := List.getElem?_eq_some_iff.1 hp
      rw [List.drop_eq_getElem_cons h, List.take_succ_cons, Option.map_some]
      simp only [ih, grid_seek, position_seek, drop_min_grid]

theorem nth_eq (n : Nat) (s : Scan) :
    s.nth n = (s.grid[s.position + n]?, s.seek (s.position + n + 1)) := by
  simp only [nth, skip_eq_seek, next?_eq, grid_seek, position_seek, seek_seek]
  by_cases h : s.position + n < s.length
  · rw [Nat.min_eq_left (Nat.le_of_lt h), getElem?_grid, if_pos h]
    rfl
  · -- the end has been reached, where there is nothing to draw
    rw [Nat.min_eq_right (by omega), getElem?_grid, if_neg (Nat.lt_irrefl _), getElem?_grid,
      if_neg h]
    exact Prod.ext rfl (s.seek_congr (by omega))

/-- A draw passes over some samples and delivers the ones after them. -/
theorem draw_eq (s : Scan) (d : Draw) :
    s.draw d = ((s.grid.drop (s.position + d.passed)).take d.wanted,
      s.seek (s.position + d.passed + d.wanted)) := by
  cases d with
  | next =>
    simp only [draw, next?_eq, Draw.passed, Draw.wanted, Nat.add_zero, List.take_one,
      List.head?_drop]
    cases hp : s.grid[s.position]? with
    | none =>
      have hend : s.length ≤ s.position := by simpa using List.getElem?_eq_none_iff.1 hp
      have hseek : s.seek (s.position + 1) = s.seek s.position := s.seek_congr (by omega)
      simp only [Option.map_none, Option.toList_none, hseek, seek_position]
    | some p => rfl
  | take n => exact take_eq n s
  | nth n =>
    simp only [draw, nth_eq, Draw.passed, Draw.wanted, List.take_one, List.head?_drop]

/-! ### Draws in turn -/

/-- A run moves a scan by the sum of its draws, and not beyond the end. -/
theorem snd_drawAll (s : Scan) (ds : List Draw) :
    (s.drawAll ds).2 = s.seek (s.position + Draw.reach ds) := by
  induction ds generalizing s with
  | nil => exact s.seek_position.symm
  | cons d ds ih =>
    simp only [drawAll, draw_eq, ih, seek_seek, Draw.reach_cons, position_seek]
    exact s.seek_congr (by omega)

/-- A run delivers samples that lie ahead, in their order. -/
theorem fst_drawAll_sublist (s : Scan) (ds : List Draw) :
    (s.drawAll ds).1.Sublist ((s.grid.drop s.position).take (Draw.reach ds)) := by
  induction ds generalizing s with
  | nil => exact List.nil_sublist _
  | cons d ds ih =>
    have hds := ih (s.seek (s.position + d.passed + d.wanted))
    simp only [grid_seek, position_seek, drop_min_grid] at hds
    simp only [drawAll, draw_eq, Draw.reach_cons]
    have hcut :
        (s.grid.drop (s.position + d.passed)).take d.wanted ++
            (s.grid.drop (s.position + d.passed + d.wanted)).take (Draw.reach ds) =
          ((s.grid.drop s.position).take (d.passed + d.wanted + Draw.reach ds)).drop d.passed := by
      rw [Nat.add_assoc d.passed, ← List.take_drop, List.drop_drop, List.take_add, List.drop_drop]
    refine (List.Sublist.append (.refl _) hds).trans ?_
    rw [hcut]
    exact List.drop_sublist _ _

/-- A run that passes over no sample delivers all samples up to where it gets. -/
theorem fst_drawAll (s : Scan) {ds : List Draw} (h : ∀ d ∈ ds, d.passed = 0) :
    (s.drawAll ds).1 = (s.grid.drop s.position).take (Draw.reach ds) := by
  induction ds generalizing s with
  | nil => rw [Draw.reach_nil, List.take_zero]; rfl
  | cons d ds ih =>
    obtain ⟨hd, hds⟩ := List.forall_mem_cons.1 h
    simp only [drawAll, draw_eq, ih _ hds, hd, Nat.add_zero, Nat.zero_add, grid_seek, position_seek,
      drop_min_grid, Draw.reach_cons]
    rw [List.take_add, List.drop_drop]

/-! ### Scans of an interval -/

/-- What `start` settles.  The last conjunct says that the number of a position is exact as a word
of 64 bits. -/
theorem of_start (h : start curve i step = .ok s₀) :
    s₀.curve = curve ∧ s₀.low = i.low ∧ s₀.step = step ∧ s₀.position = 0 ∧
      ∀ k < s₀.length, k.toUInt64.toNat = k := by
  unfold start at h
  split at h
  · cases h
  · dsimp only at h
    split at h
    · cases h
    · split at h
      · cases h
      · rename_i length _
        cases h
        refine ⟨rfl, rfl, rfl, rfl, fun k hk => ?_⟩
        have hcount := length.toNat_lt_size
        exact UInt64.toNat_ofNat_of_lt' (by simp only at hk; omega)

theorem remaining_seek (s : Scan) (n : Nat) : (s.seek n).remaining = s.length - n := by
  simp only [remaining, length_seek, position_seek]
  omega

/-- **A scan delivers each point of its interval once, in order, and knows how many are still to
come.**  Let `s` be the scan that is left after any draws `ds`, and let `sample k` be the sample at
`low + k * step`.  The position of `s` is the sum of the draws, but not beyond the end; what remains
is the rest; the next sample, the next `n` samples and the sample that `n` others precede are the
ones that lie there, whatever the outcome of evaluating them; at the end, nothing is drawn and
nothing changes.  Other draws that get as far leave the same scan, and draws that pass over nothing
deliver all samples up to where they get. -/
theorem drawAll_start (h : start curve i step = .ok s₀) (ds : List Draw) :
    let s := (s₀.drawAll ds).2
    let x (k : Nat) : Float := i.low + k.toUInt64.toFloat * step
    let sample (k : Nat) : Sample := ⟨x k, curve.eval (x k)⟩
    (s₀.position = 0 ∧ s₀.remaining = s₀.length ∧ ∀ k < s₀.length, k.toUInt64.toNat = k) ∧
    (s = s₀.seek (Draw.reach ds) ∧ s.position ≤ s₀.length ∧
      s.position + s.remaining = s₀.length) ∧
    (s.position < s₀.length →
      s.next? = some (sample s.position, s₀.seek (s.position + 1))) ∧
    (∀ n, s.take n = ((List.range' s.position (min n (s₀.length - s.position))).map sample,
      s₀.seek (s.position + n))) ∧
    (∀ n, s.nth n =
      if s.position + n < s₀.length then
        (some (sample (s.position + n)), s₀.seek (s.position + n + 1))
      else (none, s₀.seek s₀.length)) ∧
    (s.position = s₀.length → ∀ d, s.draw d = ([], s)) ∧
    (∀ es, min (Draw.reach es) s₀.length = min (Draw.reach ds) s₀.length →
      (s₀.drawAll es).2 = s) ∧
    (s₀.drawAll ds).1.Sublist (((List.range s₀.length).map sample).take (Draw.reach ds)) ∧
    ((∀ d ∈ ds, d.passed = 0) →
      (s₀.drawAll ds).1 = ((List.range s₀.length).map sample).take (Draw.reach ds)) := by
  obtain ⟨rfl, hlow, rfl, hposition, hexact⟩ := of_start h
  intro s x sample
  have hsample : s₀.sample = sample := by
    funext k
    simp only [Scan.sample, point, hlow, sample, x]
  have hgrid : s₀.grid = (List.range s₀.length).map sample := by rw [grid, hsample]
  have hs : s = s₀.seek (Draw.reach ds) := by
    simpa only [hposition, Nat.zero_add] using s₀.snd_drawAll ds
  clear_value s
  subst hs
  have hle : min (Draw.reach ds) s₀.length ≤ s₀.length := Nat.min_le_right ..
  refine ⟨⟨hposition, by rw [remaining, hposition, Nat.sub_zero], hexact⟩,
    ⟨rfl, hle, ?_⟩, ?_, ?_, ?_, ?_, ?_, ?_, ?_⟩
  · simp only [remaining_seek, position_seek]
    omega
  · intro hlt
    rw [next?_eq, grid_seek, getElem?_grid, if_pos hlt, hsample, seek_seek, Option.map_some]
  · intro n
    rw [take_eq, grid_seek, take_drop_grid, hsample, seek_seek]
  · intro n
    rw [nth_eq, grid_seek, getElem?_grid, hsample, seek_seek]
    split
    · rfl
    · exact Prod.ext rfl (s₀.seek_congr (by omega))
  · intro hend d
    rw [draw_eq, grid_seek, List.drop_of_length_le (by rw [length_grid]; omega), List.take_nil,
      seek_seek]
    exact Prod.ext rfl (s₀.seek_congr (by rw [position_seek] at hend ⊢; omega))
  · intro es hes
    rw [snd_drawAll, hposition, Nat.zero_add]
    exact s₀.seek_congr hes
  · simpa only [hposition, List.drop_zero, hgrid] using s₀.fst_drawAll_sublist ds
  · intro hpassed
    simpa only [hposition, List.drop_zero, hgrid] using s₀.fst_drawAll hpassed

/-- The curve `1 / x` over `[0; 1]` in steps of `0.5` has no value at the first of its three points,
which is drawn like the others; passing over the second and drawing the third gets to the end. -/
theorem drawAll_start_reciprocal :
    ∃ s₀, start ⟨"1/x", .arith .div (.num 1) (.var "x")⟩ ⟨0, 1⟩ 0.5 = .ok s₀ ∧ s₀.length = 3 ∧
      (∃ p, s₀.next? = some (p, s₀.seek 1) ∧ p.y = .error .divisionByZero) ∧
      (s₀.drawAll [.next, .nth 1]).2 = s₀.seek 3 ∧ ∀ d, (s₀.seek 3).draw d = ([], s₀.seek 3) := by
  have hsegments : Number.floor (stepCount ⟨0, 1⟩ 0.5) = 2 := rfl
  have hstart : start ⟨"1/x", .arith .div (.num 1) (.var "x")⟩ ⟨0, 1⟩ 0.5 =
      .ok ⟨⟨"1/x", .arith .div (.num 1) (.var "x")⟩, 0, 0.5, 3, 0, Nat.zero_le _⟩ := by
    simp only [start, hsegments]
    rfl
  obtain ⟨-, -, hnext, -⟩ := drawAll_start hstart []
  obtain ⟨-, ⟨hseek, -⟩, -, -, -, hend, -⟩ := drawAll_start hstart [.next, .nth 1]
  rw [hseek] at hend
  exact ⟨_, hstart, rfl, ⟨_, hnext (by decide), rfl⟩, hseek, hend rfl⟩

end Scan

end Formula
