import CurveCalc.Plot.Config
import CurveCalc.Proofs.Number.WholeNumbers
import CurveCalc.Proofs.Sampling.Points

/-!
Where a curve is sampled, over exact numbers. The number of intervals and the order of the two ends
are all that is looked at in a range before it is divided, and both are seen alike in doubles and in
the exact numbers that they stand for (`Range.exact_issues`). Between two numbers this is enough: the
points run from the first to the last in equal steps (`Range.Divides`). An infinite end, or one that
is no number, passes as well, since nothing is below it or it is where it should be; the length of a
step is not a number then, and taking it zero times makes the first point undefined.
-/

set_option autoImplicit false
set_option relaxedAutoImplicit false

namespace CurveCalc

/-- Where a curve has been sampled. -/
def Sampled.coordinates {α : Type} (s : Sampled α) : List α := s.points.map Prod.fst

/-- Sampling takes the points of the grid, whatever comes of the program there. -/
theorem Program.sample_coordinates {α : Type} [Primitives α] [Arithmetic α] (p : Program α)
    (capacity : Int) (range : Range α) (swept : String) (bindings : Entries String α) :
    (p.sample capacity range swept bindings).map Sampled.coordinates = range.grid := by
  cases hgrid : range.grid with
  | error e =>
    unfold sample
    rw [hgrid]
    rfl
  | ok xs =>
    obtain ⟨s, hs, hshows⟩ := p.sample_shows hgrid capacity swept bindings
    rw [hs]
    change Except.ok s.coordinates = _
    rw [Sampled.coordinates, hshows.points, List.map_map]
    exact congrArg Except.ok (List.map_id xs)

namespace Range

theorem issues_eq_nil_iff {α : Type} [Arithmetic α] {r : Range α} :
    r.issues = [] ↔ 1 ≤ r.count ∧ Arithmetic.less r.stop r.start = false := by
  simp [issues]

/-- A range of doubles, read exactly. -/
def exact (r : Range Float) : Range Extended where
  start := .ofFloat r.start
  stop := .ofFloat r.stop
  count := r.count

theorem exact_issues {r : Range Float} : r.exact.issues = [] ↔ r.issues = [] := by
  have hless : Arithmetic.less r.exact.stop r.exact.start = Arithmetic.less r.stop r.start :=
    Extended.less_ofFloat r.stop r.start
  rw [issues_eq_nil_iff, issues_eq_nil_iff, hless]
  rfl

variable {r : Range Extended}

/-- The points lie in order between the ends of the range, one more than there are intervals, and
the intervals are equal. -/
structure Divides (r : Range Extended) (xs : List ℚ) : Prop where
  length : (xs.length : ℤ) = r.count + 1
  first : xs.head?.map .finite = some r.start
  last : xs.getLast?.map .finite = some r.stop
  sorted : xs.Pairwise (· ≤ ·)
  even : ∃ width : ℚ, ∀ i (hi : i + 1 < xs.length), xs[i + 1] - xs[i] = width

theorem grid_eq_map (hcount : 1 ≤ r.count) (hwhole : Number.floatOfInt? r.count ≠ none) :
    r.grid = .ok ((List.range (r.count.toNat + 1)).map fun i : ℕ ↦
      r.start + (r.stop - r.start) / .finite r.count * .finite i) := by
  have hfinite {i : ℤ} (hi : Number.floatOfInt? i ≠ none) :
      (Arithmetic.whole? i : Option Extended) = some (.finite i) := by
    obtain ⟨x, hx⟩ := Option.ne_none_iff_exists'.mp hi
    change (Number.floatOfInt? i).map _ = _
    rw [hx]
    rfl
  unfold grid
  rw [if_neg hcount.not_gt, hfinite hwhole]
  refine congrArg Except.ok (List.map_congr_left fun i hi ↦ ?_)
  -- The number of a point is at most that of all intervals, so it has a double as well.
  have hbound : (i : ℤ) ≤ r.count := by
    rw [List.mem_range] at hi
    omega
  unfold gridPoint
  rw [hfinite (Number.floatOfInt?_ne_none_of_le i.cast_nonneg hbound hwhole)]
  rfl

/-- The ends of `n` equal intervals. -/
def evenPoints (start stop : ℚ) (n : ℕ) : List ℚ :=
  (List.range (n + 1)).map fun i : ℕ ↦ start + (stop - start) / n * i

theorem divides_evenPoints {start stop : ℚ} {n : ℕ} (hn : n ≠ 0) (h : start ≤ stop) :
    (⟨.finite start, .finite stop, n⟩ : Range Extended).Divides (evenPoints start stop n) := by
  have hwidth : 0 ≤ (stop - start) / n := div_nonneg (sub_nonneg.mpr h) n.cast_nonneg
  unfold evenPoints
  constructor
  case length => simp
  case first => simp [List.range_succ_eq_map]
  case last =>
    have hlast : start + (stop - start) / n * n = stop := by
      rw [div_mul_cancel₀ _ (Nat.cast_ne_zero.mpr hn)]
      ring
    simp [List.range_succ, hlast]
  case sorted =>
    rw [List.pairwise_map]
    refine List.pairwise_lt_range.imp fun {i j} hij ↦ ?_
    gcongr
  case even =>
    refine ⟨(stop - start) / n, fun i hi ↦ ?_⟩
    simp only [List.getElem_map, List.getElem_range]
    push_cast
    ring

theorem grid_of_isFinite (hissues : r.issues = []) (hwhole : Number.floatOfInt? r.count ≠ none)
    (hstart : r.start.IsFinite) (hstop : r.stop.IsFinite) :
    ∃ xs : List ℚ, r.grid = .ok (xs.map .finite) ∧ r.Divides xs := by
  obtain ⟨hcount, hless⟩ := issues_eq_nil_iff.mp hissues
  rw [grid_eq_map hcount hwhole]
  obtain ⟨start, stop, count⟩ := r
  change 1 ≤ count at hcount
  obtain ⟨n, rfl⟩ := Int.eq_ofNat_of_zero_le (zero_le_one.trans hcount)
  obtain ⟨a, rfl⟩ := hstart
  obtain ⟨b, rfl⟩ := hstop
  have hn : n ≠ 0 := by omega
  have hab : a ≤ b := not_lt.mp (of_decide_eq_false hless)
  refine ⟨evenPoints a b n, ?_, divides_evenPoints hn hab⟩
  unfold evenPoints
  rw [List.map_map]
  refine congrArg Except.ok (List.map_congr_left fun i _ ↦ ?_)
  simp [Extended.finite_div_finite _ (Nat.cast_ne_zero.mpr hn)]

theorem grid_of_not_isFinite (hcount : 1 ≤ r.count) (hwhole : Number.floatOfInt? r.count ≠ none)
    (hends : ¬ (r.start.IsFinite ∧ r.stop.IsFinite)) :
    ∃ xs : List Extended, r.grid = .ok (.nan :: xs) ∧ (xs.length : ℤ) = r.count := by
  have hn : (r.count : ℚ) ≠ 0 := by
    rw [Int.cast_ne_zero]
    omega
  -- A step that is no number makes the first point undefined, although it is not taken there.
  have hstep : ¬ ((r.stop - r.start) / .finite r.count).IsFinite := by
    rw [Extended.isFinite_div_iff hn, Extended.isFinite_sub_iff]
    exact fun h ↦ hends h.symm
  have hfirst : r.start + (r.stop - r.start) / .finite r.count * .finite (0 : ℕ) = .nan := by
    rw [Nat.cast_zero, Extended.mul_zero_of_not_isFinite hstep, Extended.add_nan]
  rw [grid_eq_map hcount hwhole, List.range_succ_eq_map, List.map_cons, hfirst]
  refine ⟨_, rfl, ?_⟩
  rw [List.length_map, List.length_map, List.length_range]
  omega

end Range

namespace PlotConfig

theorem range_issues {c : PlotConfig} (h : c.issues = []) : c.range.issues = [] := by
  simp only [issues, List.append_eq_nil_iff, List.map_eq_nil_iff] at h
  exact h.1.1.1

/-- Where a range is sampled that nothing is wrong with, or that is the range of a configuration that
nothing is wrong with, read exactly. The coordinates are those of the grid, whatever is sampled.
Between two numbers they run from the first to the last, in order and in equal steps. If an end is
infinite, or no number, there are as many of them, but the first is undefined. Only a number of
intervals that is beyond the doubles gives none. -/
theorem sample_grid (r : Range Extended)
    (hr : r.issues = [] ∨ ∃ c : PlotConfig, c.issues = [] ∧ c.range.exact = r) :
    (∀ [Primitives Extended] (p : Program Extended) (capacity : Int) (swept : String)
        (bindings : Entries String Extended),
      (p.sample capacity r swept bindings).map Sampled.coordinates = r.grid) ∧
    (Number.floatOfInt? r.count = none → r.grid = .error .countTooLarge) ∧
    (Number.floatOfInt? r.count ≠ none → r.start.IsFinite ∧ r.stop.IsFinite →
      ∃ xs : List ℚ, r.grid = .ok (xs.map .finite) ∧ r.Divides xs) ∧
    (Number.floatOfInt? r.count ≠ none → ¬ (r.start.IsFinite ∧ r.stop.IsFinite) →
      ∃ xs : List Extended, r.grid = .ok (.nan :: xs) ∧ (xs.length : ℤ) = r.count) := by
  have hissues : r.issues = [] := by
    rcases hr with hr | ⟨c, hc, rfl⟩
    · exact hr
    · exact Range.exact_issues.mpr (range_issues hc)
  have hcount : 1 ≤ r.count := (Range.issues_eq_nil_iff.mp hissues).1
  refine ⟨?_, ?_, ?_, ?_⟩
  · intro _ p capacity swept bindings
    exact p.sample_coordinates capacity r swept bindings
  · intro hwhole
    have hnone : (Arithmetic.whole? r.count : Option Extended) = none :=
      congrArg (Option.map _) hwhole
    unfold Range.grid
    rw [if_neg hcount.not_gt, hnone]
  · rintro hwhole ⟨hstart, hstop⟩
    exact Range.grid_of_isFinite hissues hwhole hstart hstop
  · intro hwhole hends
    exact Range.grid_of_not_isFinite hcount hwhole hends

/-- The configuration to begin with, from -3 to 3. -/
theorem sample_grid_sample :
    sample.issues = [] ∧ ∃ xs : List ℚ,
      sample.range.exact.grid = .ok (xs.map .finite) ∧ sample.range.exact.Divides xs := by
  have hissues : sample.issues = [] := List.isEmpty_iff.mp (by decide +kernel)
  have hwhole : Number.floatOfInt? sample.range.exact.count ≠ none := by
    rw [ne_eq, ← Option.isNone_iff_eq_none]
    decide +kernel
  have hstart : sample.range.exact.start.IsFinite := ⟨-3, by decide +kernel⟩
  have hstop : sample.range.exact.stop.IsFinite := ⟨3, by decide +kernel⟩
  have hgrid := sample_grid sample.range.exact (Or.inr ⟨sample, hissues, rfl⟩)
  exact ⟨hissues, hgrid.2.2.1 hwhole ⟨hstart, hstop⟩⟩

/-- One interval from zero to infinity: nothing is wrong with it, and neither of its two points is
a number. -/
theorem sample_grid_infinite :
    let c : PlotConfig := { range := ⟨0.0, 1.0 / 0.0, 1⟩ }
    c.issues = [] ∧ c.range.exact.grid = .ok [.nan, .infinite false] ∧
      c.range.grid.map (List.map Extended.ofFloat) = .ok [.nan, .infinite false] := by
  refine ⟨List.isEmpty_iff.mp ?_, ?_, ?_⟩
  all_goals decide +kernel

end PlotConfig

end CurveCalc
