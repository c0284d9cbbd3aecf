import CurveCalc.Proofs.Number.Exact
import CurveCalc.Sampling.Calculus
import Mathlib.Tactic.FieldSimp

/-!
Derivatives and integrals over exact numbers. The integral carries a total and the point before from
one point to the next, so that it can be cut anywhere: what follows a point is the integral that is
counted on from there (`integralFrom_append`), and what stands before a point does not depend on it
(`integral_take`). The first point is paired with itself. Where its value is a number, the area of
this pair is zero, and each total is the one before with the area of one trapezoid added
(`Accumulates`); the slopes of the totals are the means of neighbouring values again. Where its value
is none, a zero width does not make up for it: the area is no number, and neither is any total
(`integral_of_not_isFinite`).
-/

set_option autoImplicit false
set_option relaxedAutoImplicit false

namespace CurveCalc

/-! Cutting an integral. -/

section Cutting

variable {α : Type} [Arithmetic α]

theorem integralFrom_append (total : α) (last : α × α) (points more : List (α × α)) :
    integralFrom total last (points ++ more) = integralFrom total last points ++
      integralFrom (((integralFrom total last points).map Prod.snd).getLastD total)
        (points.getLastD last) more := by
  induction points generalizing total last with
  | nil => rfl
  | cons p rest ih =>
    simp only [List.cons_append, integralFrom, List.map_cons, List.getLastD_cons, ih]

theorem integralFrom_take (total : α) (last : α × α) (points : List (α × α)) (k : ℕ) :
    (integralFrom total last points).take k = integralFrom total last (points.take k) := by
  induction points generalizing total last k with
  | nil => simp [integralFrom]
  | cons p rest ih =>
    cases k with
    | zero => rfl
    | succ k => simp only [integralFrom, List.take_succ_cons, ih]

theorem integral_take (start : α) (points : List (α × α)) (k : ℕ) :
    (integral start points).take k = integral start (points.take k) := by
  cases points with
  | nil => simp [integral]
  | cons p rest =>
    cases k with
    | zero => rfl
    | succ k => exact integralFrom_take start p (p :: rest) (k + 1)

end Cutting

/-! Points whose values are all numbers. -/

/-- A point with exact coordinates. -/
def exactPoint (p : ℚ × ℚ) : Extended × Extended := (.finite p.1, .finite p.2)

/-- The area of the trapezoid between two points. -/
def area (p q : ℚ × ℚ) : ℚ := (q.2 + p.2) * (q.1 - p.1) / 2

theorem trapezoid_exactPoint (p q : ℚ × ℚ) :
    trapezoid (exactPoint p) (exactPoint q) = .finite (area p q) := by
  have htwo : (Arithmetic.two : Extended) = .finite 2 := rfl
  simp [trapezoid, exactPoint, area, htwo, Extended.finite_mul_finite, Extended.finite_div_finite]

theorem area_self (p : ℚ × ℚ) : area p p = 0 := by
  simp [area]

/-- The totals at the points that follow `last`, where it is `total`. -/
def totalsFrom (total : ℚ) (last : ℚ × ℚ) : List (ℚ × ℚ) → List ℚ
  | [] => []
  | p :: rest => (total + area last p) :: totalsFrom (total + area last p) p rest

/-- The totals begin with `start`, and each is the one before with the area between the two points
added. -/
structure Accumulates (points : List (ℚ × ℚ)) (start : ℚ) (totals : List ℚ) : Prop where
  length : totals.length = points.length
  first : totals.head? = some start
  next : ∀ i p q t, points[i]? = some p → points[i + 1]? = some q → totals[i]? = some t →
    totals[i + 1]? = some (t + (q.2 + p.2) * (q.1 - p.1) / 2)

theorem accumulates_totalsFrom (start : ℚ) (p : ℚ × ℚ) (rest : List (ℚ × ℚ)) :
    Accumulates (p :: rest) start (start :: totalsFrom start p rest) := by
  induction rest generalizing start p with
  | nil =>
    constructor
    case length => rfl
    case first => rfl
    case next => simp
  | cons q rest ih =>
    -- The points from `q` on, with the total that is reached there.
    have htail := ih (start + area p q) q
    constructor
    case length => exact congrArg (· + 1) htail.length
    case first => rfl
    case next =>
      intro i p' q' t hp hq ht
      cases i with
      | zero =>
        cases hp
        cases hq
        cases ht
        rfl
      | succ i => exact htail.next i p' q' t hp hq ht

theorem integralFrom_exactPoint (total : ℚ) (last : ℚ × ℚ) (points : List (ℚ × ℚ)) :
    integralFrom (.finite total) (exactPoint last) (points.map exactPoint) =
      List.zipWith (fun p t ↦ exactPoint (p.1, t)) points (totalsFrom total last points) := by
  induction points generalizing total last with
  | nil => rfl
  | cons p rest ih =>
    rw [List.map_cons, integralFrom, trapezoid_exactPoint, Extended.finite_add_finite, ih]
    rfl

theorem integral_exactPoint (start : ℚ) (p : ℚ × ℚ) (rest : List (ℚ × ℚ)) :
    integral (.finite start) ((p :: rest).map exactPoint) =
      List.zipWith (fun p t ↦ exactPoint (p.1, t)) (p :: rest)
        (start :: totalsFrom start p rest) := by
  have hfirst : totalsFrom start p (p :: rest) = start :: totalsFrom start p rest := by
    rw [totalsFrom, area_self, add_zero]
  rw [← hfirst]
  exact integralFrom_exactPoint start p (p :: rest)

theorem map_snd_integralFrom (total : ℚ) (last : ℚ × ℚ) (points : List (ℚ × ℚ)) :
    (integralFrom (.finite total) (exactPoint last) (points.map exactPoint)).map Prod.snd =
      (totalsFrom total last points).map .finite := by
  induction points generalizing total last with
  | nil => rfl
  | cons p rest ih =>
    rw [List.map_cons, integralFrom, trapezoid_exactPoint, Extended.finite_add_finite, List.map_cons,
      ih]
    rfl

/-- What follows exact points is counted on from the last of them. -/
theorem integral_append_exactPoint (start : ℚ) (p : ℚ × ℚ) (rest : List (ℚ × ℚ))
    (more : List (Extended × Extended)) :
    integral (.finite start) ((p :: rest).map exactPoint ++ more) =
      integral (.finite start) ((p :: rest).map exactPoint) ++
        (integral (.finite ((totalsFrom start p rest).getLastD start))
          (exactPoint (rest.getLastD p) :: more)).tail := by
  have htotal (total : ℚ) (last : ℚ × ℚ) :
      Extended.finite total + trapezoid (exactPoint last) (exactPoint last) = .finite total := by
    rw [trapezoid_exactPoint, area_self, Extended.add_zero]
  have hlast : (rest.map exactPoint).getLastD (exactPoint p) = exactPoint (rest.getLastD p) := by
    simp only [List.getLastD_eq_getLast?, List.getLast?_map, Option.getD_map]
  have hsum : ((totalsFrom start p rest).map Extended.finite).getLastD (.finite start) =
      .finite ((totalsFrom start p rest).getLastD start) := by
    simp only [List.getLastD_eq_getLast?, List.getLast?_map, Option.getD_map]
  change integralFrom (.finite start) (exactPoint p) (exactPoint p :: (rest.map exactPoint ++ more)) =
    integralFrom (.finite start) (exactPoint p) (exactPoint p :: rest.map exactPoint) ++
      integralFrom _ _ more
  rw [integralFrom, integralFrom, htotal, htotal, List.cons_append, integralFrom_append,
    map_snd_integralFrom, hlast, hsum]

/-- The mean of the values on both sides of an interval, at its right end; the slope over an
interval without width is undefined. -/
def meanSlope (p q : ℚ × ℚ) : Extended × Extended :=
  (.finite q.1, if q.1 = p.1 then .nan else .finite ((q.2 + p.2) / 2))

theorem slope_area (p q : ℚ × ℚ) (total : ℚ) :
    slope (exactPoint (p.1, total)) (exactPoint (q.1, total + area p q)) = meanSlope p q := by
  have hzero : Arithmetic.isZero (Extended.finite (q.1 - p.1)) = decide (q.1 = p.1) := by
    change decide (Extended.finite (q.1 - p.1) = .finite 0) = _
    simp [sub_eq_zero]
  unfold slope meanSlope exactPoint
  simp only [Extended.finite_sub_finite, hzero, decide_eq_true_eq]
  split_ifs with hwidth
  · rfl
  · have hne : q.1 - p.1 ≠ 0 := sub_ne_zero.mpr hwidth
    have hmean : (total + area p q - total) / (q.1 - p.1) = (q.2 + p.2) / 2 := by
      unfold area
      field_simp
      ring
    rw [Extended.finite_div_finite _ hne, hmean]

theorem derivative_totals (start : ℚ) (p : ℚ × ℚ) (rest : List (ℚ × ℚ)) :
    derivative (List.zipWith (fun p t ↦ exactPoint (p.1, t)) (p :: rest)
      (start :: totalsFrom start p rest)) = List.zipWith meanSlope (p :: rest) rest := by
  induction rest generalizing start p with
  | nil => rfl
  | cons q rest ih =>
    change slope (exactPoint (p.1, start)) (exactPoint (q.1, start + area p q)) ::
      derivative (List.zipWith (fun p t ↦ exactPoint (p.1, t)) (q :: rest)
        ((start + area p q) :: totalsFrom (start + area p q) q rest)) =
      meanSlope p q :: List.zipWith meanSlope (q :: rest) rest
    rw [slope_area, ih]

/-- The integral of exact points has a total at each of them that is the one before with the area of
a trapezoid added, its slopes are the means of neighbouring values, and whatever follows the points,
numbers or not, is counted on from the last of them. -/
theorem integral_accumulates (start : ℚ) {points : List (ℚ × ℚ)} (hpoints : points ≠ []) :
    ∃ totals, Accumulates points start totals ∧
      integral (.finite start) (points.map exactPoint) =
        List.zipWith (fun p t ↦ exactPoint (p.1, t)) points totals ∧
      derivative (integral (.finite start) (points.map exactPoint)) =
        List.zipWith meanSlope points points.tail ∧
      ∃ last total, points.getLast? = some last ∧ totals.getLast? = some total ∧
        ∀ more : List (Extended × Extended),
          integral (.finite start) (points.map exactPoint ++ more) =
            integral (.finite start) (points.map exactPoint) ++
              (integral (.finite total) (exactPoint last :: more)).tail := by
  cases points with
  | nil => exact absurd rfl hpoints
  | cons p rest =>
    refine ⟨start :: totalsFrom start p rest, accumulates_totalsFrom start p rest,
      integral_exactPoint start p rest, ?_, rest.getLastD p, (totalsFrom start p rest).getLastD start,
      ?_, ?_, ?_⟩
    · rw [integral_exactPoint]
      exact derivative_totals start p rest
    · rw [List.getLast?_cons, List.getLastD_eq_getLast?]
    · rw [List.getLast?_cons, List.getLastD_eq_getLast?]
    · exact integral_append_exactPoint start p rest

/-- Four points, two of them at one place and the last one further left. -/
theorem integral_accumulates_steps :
    ([(0, 1), (1, 3), (1, 0), (0, 2)] : List (ℚ × ℚ)) ≠ [] ∧
    ∃ totals, Accumulates [(0, 1), (1, 3), (1, 0), (0, 2)] 5 totals ∧
      derivative (integral (.finite 5) ([(0, 1), (1, 3), (1, 0), (0, 2)].map exactPoint)) =
        [(.finite 1, .finite 2), (.finite 1, .nan), (.finite 0, .finite 1)] := by
  have hpoints : ([(0, 1), (1, 3), (1, 0), (0, 2)] : List (ℚ × ℚ)) ≠ [] := List.cons_ne_nil _ _
  obtain ⟨totals, haccumulates, -, hslopes, -⟩ := integral_accumulates 5 hpoints
  refine ⟨hpoints, totals, haccumulates, hslopes.trans ?_⟩
  decide +kernel

example : integral (.finite 5) ([(0, 1), (1, 3), (1, 0), (0, 2)].map exactPoint) =
    [(0, 5), (1, 7), (1, 7), (0, 6)].map exactPoint := by decide +kernel

/-! Points whose values need not be numbers. -/

/-- A point of an exact grid, with whatever value is there. -/
def onGrid (p : ℚ × Extended) : Extended × Extended := (.finite p.1, p.2)

/-- Paired with itself, only a point whose value is a number spans no area. -/
theorem trapezoid_self (x : ℚ) (y : Extended) :
    trapezoid (onGrid (x, y)) (onGrid (x, y)) = .finite 0 ∧ y.IsFinite ∨
      trapezoid (onGrid (x, y)) (onGrid (x, y)) = .nan ∧ ¬ y.IsFinite := by
  by_cases hy : y.IsFinite
  · obtain ⟨q, rfl⟩ := hy
    refine Or.inl ⟨?_, Extended.isFinite_finite q⟩
    rw [← area_self (x, q)]
    exact trapezoid_exactPoint (x, q) (x, q)
  · -- The width is zero, but what is taken zero times is no number.
    have hsum : ¬ (y + y).IsFinite := fun h ↦ hy (Extended.isFinite_add_iff.mp h).1
    refine Or.inr ⟨?_, hy⟩
    unfold trapezoid onGrid
    rw [Extended.finite_sub_finite, sub_self, Extended.mul_zero_of_not_isFinite hsum,
      Extended.nan_div]

/-- A total that is no number stays so. -/
theorem integralFrom_nan (last : Extended × Extended) (points : List (Extended × Extended)) :
    integralFrom .nan last points = points.map fun p ↦ (p.1, .nan) := by
  induction points generalizing last with
  | nil => rfl
  | cons p rest ih => rw [integralFrom, Extended.nan_add, ih, List.map_cons]

theorem integral_of_not_isFinite (start : Extended) (x : ℚ) {y : Extended} (hy : ¬ y.IsFinite)
    (rest : List (ℚ × Extended)) :
    integral start (((x, y) :: rest).map onGrid) =
      ((x, y) :: rest).map fun p ↦ (.finite p.1, .nan) := by
  obtain ⟨-, hfinite⟩ | ⟨hself, -⟩ := trapezoid_self x y
  · exact absurd hfinite hy
  change integralFrom start (onGrid (x, y)) (onGrid (x, y) :: rest.map onGrid) = _
  rw [integralFrom, hself, Extended.add_nan, integralFrom_nan, List.map_map]
  rfl

theorem head?_integral (start : Extended) (x : ℚ) (y : Extended) (rest : List (ℚ × Extended)) :
    (integral start (((x, y) :: rest).map onGrid)).head? = some (.finite x, start) ↔
      y.IsFinite ∨ start = .nan := by
  have hhead : (integral start (((x, y) :: rest).map onGrid)).head? =
      some (.finite x, start + trapezoid (onGrid (x, y)) (onGrid (x, y))) := rfl
  rw [hhead]
  obtain ⟨hself, hy⟩ | ⟨hself, hy⟩ := trapezoid_self x y
  · rw [hself, Extended.add_zero]
    exact iff_of_true rfl (Or.inl hy)
  · rw [hself, Extended.add_nan]
    simp [hy, eq_comm]

/-- What a gap in a curve does to its integral. The first total is the value to start from if the
first point has a number for its value; if it has none, no total is a number. A value further on is
in no total before its point. -/
theorem integral_gaps (start : Extended) (x : ℚ) (y : Extended) (rest : List (ℚ × Extended)) :
    ((integral start (((x, y) :: rest).map onGrid)).head? = some (.finite x, start) ↔
      y.IsFinite ∨ start = .nan) ∧
    (¬ y.IsFinite → integral start (((x, y) :: rest).map onGrid) =
      ((x, y) :: rest).map fun p ↦ (.finite p.1, .nan)) ∧
    ∀ (k : ℕ) (z : Extended),
      (integral start ((((x, y) :: rest).modify k fun p ↦ (p.1, z)).map onGrid)).take k =
        (integral start (((x, y) :: rest).map onGrid)).take k := by
  refine ⟨head?_integral start x y rest, fun hy ↦ integral_of_not_isFinite start x hy rest, ?_⟩
  intro k z
  have hbefore : (((x, y) :: rest).modify k fun p ↦ (p.1, z)).take k = ((x, y) :: rest).take k := by
    rw [List.take_modify, List.modify_eq_self (List.length_take_le k _)]
  rw [integral_take, integral_take, ← List.map_take, ← List.map_take, hbefore]

/-- A curve without a value at its first point. -/
theorem integral_gaps_first :
    ¬ Extended.nan.IsFinite ∧
      integral (.finite 2) ([(0, .nan), (1, .finite 4)].map onGrid) =
        [(.finite 0, .nan), (.finite 1, .nan)] :=
  ⟨Extended.not_isFinite_nan,
    (integral_gaps (.finite 2) 0 .nan [(1, .finite 4)]).2.1 Extended.not_isFinite_nan⟩

/-- One point without a value: its total is not the value that is started from, be it computed
exactly or in doubles. -/
theorem integral_start_lost :
    (integral (.finite 2) ([(0, .nan)].map onGrid)).head? ≠ some (.finite 0, .finite 2) ∧
      (integral 2.0 [(0.0, 0.0 / 0.0)]).map (Prod.map Extended.ofFloat Extended.ofFloat) =
        [((.finite 0, .nan) : Extended × Extended)] := by
  constructor
  all_goals decide +kernel

end CurveCalc
