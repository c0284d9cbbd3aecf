import CurveCalc.Proofs.Formula.MissingValues
import CurveCalc.Sampling.Sample
import Mathlib.Algebra.Group.Int.Defs

/-!
The points of a sampled curve. One list of values serves for all of them: at each point the swept
variable is set in it once more, at the slot that was looked up before the first. Since nothing else
in it changes, what comes of a point does not depend on the points before (`Program.outcomes_eq`),
and since the names of a compiled program are distinct, the values at a point are those that are
bound when the program is run there on its own (`Supplies.bind_eq`).
-/

set_option autoImplicit false
set_option relaxedAutoImplicit false

namespace CurveCalc

/-! The values with which a program is run at a point. -/

theorem set_map_getElem {α : Type} {names : List String} (hnames : names.Nodup) {slot : Nat}
    (hslot : slot < names.length) (f : String → α) (x : α) :
    (names.map f).set slot x = names.map fun name ↦ if name = names[slot] then x else f name := by
  refine List.ext_getElem (by simp) fun i hi hi' ↦ ?_
  rw [List.length_map] at hi'
  rw [List.getElem_set, List.getElem_map, List.getElem_map]
  by_cases heq : slot = i
  · subst heq
    rw [if_pos rfl, if_pos rfl]
  · rw [if_neg heq, if_neg (mt hnames.getElem_inj_iff.mp (Ne.symm heq))]

/-- At a point the swept variable has its coordinate, and the other variables have their values. -/
theorem sampleValues_at {α : Type} [Arithmetic α] {names : List String} (hnames : names.Nodup)
    (swept : String) (bindings : Entries String α) (x : α) :
    (sampleValues names swept bindings).at x = names.map fun name ↦
      if name = swept then x else (bindings.get? name).getD Arithmetic.zero := by
  unfold SampleValues.at sampleValues
  cases hslot : names.reverse.idxOf? swept with
  | none =>
    have hswept : swept ∉ names := mt List.mem_reverse.mpr (List.idxOf?_eq_none_iff.mp hslot)
    refine List.map_congr_left fun name hname ↦ ?_
    have hne : name ≠ swept := fun h ↦ hswept (h ▸ hname)
    rw [if_neg hne, if_neg hne]
  | some i =>
    obtain ⟨hi, hget, -⟩ := List.idxOf?_eq_some_iff.mp hslot
    rw [List.getElem_reverse] at hget
    dsimp only
    rw [set_map_getElem hnames (by rw [List.length_reverse] at hi; omega), hget]
    refine List.map_congr_left fun name _ ↦ ?_
    by_cases hname : name = swept
    · rw [if_pos hname, if_pos hname]
    · rw [if_neg hname, if_neg hname, if_neg hname]

/-- Where every name has a value, these are the values of the names. -/
theorem bindNames_eq_map {bindings : Bindings} {names : List String} {f : String → Float}
    (h : ∀ name ∈ names, bindings.get? name = some (f name)) :
    bindNames bindings names = names.map f := by
  induction names with
  | nil => rfl
  | cons name names ih =>
    unfold bindNames
    rw [h name List.mem_cons_self]
    exact congrArg (List.cons (f name)) (ih fun n hn ↦ h n (List.mem_cons_of_mem name hn))

/-- Among these names the swept one is bound to the coordinate, and any other to what it is bound to
for the whole curve, or else to zero. -/
def Supplies (env : Bindings) (names : List String) (swept : String) (bindings : Bindings)
    (x : Float) : Prop :=
  ∀ name ∈ names,
    env.get? name = some (if name = swept then x else (bindings.get? name).getD 0.0)

theorem Supplies.bind_eq {p : Program Float} {env bindings : Bindings} {swept : String} {x : Float}
    (hnames : p.names.Nodup) (henv : Supplies env p.names swept bindings x) :
    p.bind env = (sampleValues p.names swept bindings).at x :=
  (bindNames_eq_map henv).trans (sampleValues_at hnames swept bindings x).symm

/-! One point after the other. -/

section Outcomes

variable {α : Type}

/-- Of the values that a point leaves, the next one sets again what the point has set. -/
theorem at_of_at (v : SampleValues α) (x y : α) : { v with values := v.at x }.at y = v.at y := by
  obtain ⟨values, slot⟩ := v
  cases slot with
  | none => rfl
  | some slot => exact List.set_set x

theorem Program.outcomes_eq [Primitives α] (p : Program α) (v : SampleValues α) (capacity : Int)
    (xs : List α) :
    p.outcomes v capacity xs = xs.map fun x ↦ (x, p.run (v.at x) capacity) := by
  induction xs generalizing v with
  | nil => rfl
  | cons x xs ih =>
    rw [outcomes, ih, List.map_cons]
    simp only [at_of_at]

theorem pointOf_eq [Arithmetic α] (x : α) (outcome : Except RunError α) :
    pointOf (x, outcome) = (x, outcome.toOption.getD Arithmetic.undefined) := by
  cases outcome <;> rfl

theorem failureOf_eq_none {x : α} {outcome : Except RunError α} :
    failureOf (x, outcome) = none ↔ ∃ y, outcome = .ok y := by
  cases outcome with
  | ok y => exact iff_of_true rfl ⟨y, rfl⟩
  | error e => exact iff_of_false nofun nofun

theorem failureOf_eq_some {x z : α} {outcome : Except RunError α} {e : RunError} :
    failureOf (x, outcome) = some (z, e) ↔ x = z ∧ outcome = .error e := by
  cases outcome with
  | ok y => exact iff_of_false nofun nofun
  | error e' => simp [failureOf]

variable [Arithmetic α]

/-- A sampled curve tells what running gives at each coordinate, a value or else an undefined one,
and which failure is the first. -/
structure Sampled.Shows (s : Sampled α) (run : α → Except RunError α) (xs : List α) : Prop where
  points : s.points = xs.map fun x ↦ (x, (run x).toOption.getD Arithmetic.undefined)
  sound : s.failure = none ↔ ∀ x ∈ xs, ∃ y, run x = .ok y
  failed : ∀ x e, s.failure = some (x, e) ↔ ∃ before after, xs = before ++ x :: after ∧
    (∀ z ∈ before, ∃ y, run z = .ok y) ∧ run x = .error e

theorem Program.sample_shows [Primitives α] (p : Program α) {range : Range α} {xs : List α}
    (hgrid : range.grid = .ok xs) (capacity : Int) (swept : String) (bindings : Entries String α) :
    ∃ s, p.sample capacity range swept bindings = .ok s ∧
      s.Shows (fun x ↦ p.run ((sampleValues p.names swept bindings).at x) capacity) xs := by
  unfold sample
  rw [hgrid]
  refine ⟨_, rfl, ?_, ?_, ?_⟩
  · simp only [outcomes_eq, List.map_map, Function.comp_def, pointOf_eq]
  · simp only [outcomes_eq, List.findSome?_eq_none_iff, List.forall_mem_map, failureOf_eq_none]
  · intro x e
    simp only [outcomes_eq, List.findSome?_map, List.findSome?_eq_some_iff, Function.comp_def,
      failureOf_eq_none, failureOf_eq_some]
    constructor
    · rintro ⟨before, z, after, hsplit, ⟨rfl, he⟩, hbefore⟩
      exact ⟨before, after, hsplit, hbefore, he⟩
    · rintro ⟨before, after, hsplit, hbefore, he⟩
      exact ⟨before, x, after, hsplit, ⟨rfl, he⟩, hbefore⟩

end Outcomes

/-! The coordinates. -/

theorem Range.grid_eq {range : Range Float} (hcount : 1 ≤ range.count) {n : Float}
    (hn : Number.floatOfInt? range.count = some n) :
    range.grid = .ok ((List.range (range.count.toNat + 1)).map
      (gridPoint range.start ((range.stop - range.start) / n))) := by
  have hwhole : (Arithmetic.whole? range.count : Option Float) = some n := hn
  unfold Range.grid
  rw [if_neg (Int.not_lt.mpr hcount), hwhole]

theorem Range.grid_error {range : Range Float} (hcount : 1 ≤ range.count)
    (hn : Number.floatOfInt? range.count = none) : range.grid = .error .countTooLarge := by
  have hwhole : (Arithmetic.whole? range.count : Option Float) = none := hn
  unfold Range.grid
  rw [if_neg (Int.not_lt.mpr hcount), hwhole]

/-- A program that a text is compiled to, folded or not. -/
def Program.Compiled (p : Program Float) (source : String) : Prop :=
  ∃ maxDepth q, compile maxDepth source = .ok q ∧ (p = q ∨ q.fold = .ok p)

theorem Program.Compiled.reads {p : Program Float} {source : String} (h : p.Compiled source) :
    p.Reads source := by
  obtain ⟨maxDepth, q, hq, rfl | hp⟩ := h
  · exact reads_of_compile hq
  · exact (reads_of_compile hq).fold hp

/-- Sampling a compiled program, folded or not, is running it at each point on its own, with the
swept variable bound to the coordinate and the others to their bindings or else to zero. Whichever
coordinates there are and whatever has come of those before, the outcome at a coordinate is that of
such a run. A range of one interval at least gives one point more than it has intervals, undefined
where the run has failed, and the failure that is kept is the first of them. Only a number of
intervals that is beyond the doubles gives no points at all. -/
theorem Program.sample_runs {p : Program Float} {source : String} (hp : p.Compiled source)
    (capacity : Int) {range : Range Float} (hcount : 1 ≤ range.count) {swept : String}
    {bindings : Bindings} {env : Float → Bindings}
    (henv : ∀ x, Supplies (env x) p.names swept bindings x) :
    (∀ xs, p.outcomes (sampleValues p.names swept bindings) capacity xs =
      xs.map fun x ↦ (x, p.run (p.bind (env x)) capacity)) ∧
    (∀ x fault, p.run (p.bind (env x)) capacity ≠ .error (.badOperand fault)) ∧
    (∀ n, Number.floatOfInt? range.count = some n →
      ∃ s, p.sample capacity range swept bindings = .ok s ∧
        (s.points.length : Int) = range.count + 1 ∧
        s.Shows (fun x ↦ p.run (p.bind (env x)) capacity)
          ((List.range (range.count.toNat + 1)).map
            (gridPoint range.start ((range.stop - range.start) / n)))) ∧
    (Number.floatOfInt? range.count = none →
      p.sample capacity range swept bindings = .error .countTooLarge) := by
  have hnames : p.names.Nodup := hp.reads.names ▸ nodup_eraseDups _
  have hbind : (fun x ↦ p.run (p.bind (env x)) capacity) =
      fun x ↦ p.run ((sampleValues p.names swept bindings).at x) capacity := by
    funext x
    rw [(henv x).bind_eq hnames]
  refine ⟨?_, ?_, ?_, ?_⟩
  · intro xs
    rw [outcomes_eq]
    exact List.map_congr_left fun x _ ↦ congrArg (Prod.mk x) (congrFun hbind x).symm
  · intro x fault hrun
    have hends := hp.reads.wellFormed.run (p.bind (env x)) capacity
    rw [hrun] at hends
    cases hends
  · intro n hn
    obtain ⟨s, hs, hshows⟩ := p.sample_shows (Range.grid_eq hcount hn) capacity swept bindings
    refine ⟨s, hs, ?_, hbind ▸ hshows⟩
    rw [hshows.points, List.length_map, List.length_map, List.length_range]
    omega
  · intro hn
    unfold sample
    rw [Range.grid_error hcount hn]
    rfl

/-- Three points of `x+y`, the second one with the `y` of the first. -/
theorem Program.sample_runs_sum :
    ∃ p s, Program.Compiled p "x+y" ∧ p.sample 64 ⟨0.0, 1.0, 2⟩ "x" [("y", 2.0)] = .ok s ∧
      s.points.length = 3 ∧
      s.Shows (fun x ↦ p.run (p.bind [("x", x), ("y", 2.0)]) 64)
        ((List.range 3).map (gridPoint 0.0 ((1.0 - 0.0) / 2.0))) := by
  let x : VariableName := ⟨'x', [], by decide, List.forall_mem_nil _, by decide⟩
  let y : VariableName := ⟨'y', [], by decide, List.forall_mem_nil _, by decide⟩
  let e : Expression Constant VariableName := .binary .add (.var x) (.var y)
  have he : CurveCalc.compile 100 "x+y" = .ok e.written.program :=
    compile_of_text e (by decide) (by decide) (by decide)
  have hcompiled : Program.Compiled e.written.program "x+y" := ⟨100, _, he, Or.inl rfl⟩
  have henv : ∀ z : Float, Supplies [("x", z), ("y", 2.0)] e.written.program.names "x"
      [("y", 2.0)] z :=
    fun z ↦ List.forall_mem_cons.mpr ⟨rfl, List.forall_mem_singleton.mpr rfl⟩
  let range : Range Float := ⟨0.0, 1.0, 2⟩
  have hcount : 1 ≤ range.count := by decide
  have htwo : Number.floatOfInt? range.count = some 2.0 := by decide +kernel
  obtain ⟨s, hs, hlength, hshows⟩ := (Program.sample_runs hcompiled 64 hcount henv).2.2.1 2.0 htwo
  refine ⟨_, s, hcompiled, hs, ?_, hshows⟩
  change (s.points.length : Int) = 2 + 1 at hlength
  omega

/-- A formula of one number, whose code is that number. -/
theorem compile_one : CurveCalc.compile 100 "1" = .ok ⟨[.constant (.real 1.0)], []⟩ := by
  let one : Constant := .numeral (.whole ⟨['1'], by decide, List.forall_mem_singleton.mpr rfl⟩)
  let e : Expression Constant VariableName := .constant one
  exact compile_of_text e (by decide) (by decide) (by decide)

theorem Toolchain.compileFolded_one :
    Toolchain.compileFolded {} "1" = .ok ⟨[.constant (.real 1.0)], []⟩ := by
  unfold Toolchain.compileFolded Toolchain.compile
  rw [compile_one]
  rfl

/-- A number of intervals that is beyond the doubles: there are no points. -/
theorem Program.sample_vast :
    (1 : Int) ≤ 10 ^ 400 ∧ Program.Compiled ⟨[.constant (.real 1.0)], []⟩ "1" ∧
    Program.sample (α := Float) ⟨[.constant (.real 1.0)], []⟩ 64 ⟨0.0, 1.0, 10 ^ 400⟩ "x" [] =
      .error .countTooLarge ∧
    ¬ ∃ s, Program.sample (α := Float) ⟨[.constant (.real 1.0)], []⟩ 64 ⟨0.0, 1.0, 10 ^ 400⟩ "x"
      [] = .ok s := by
  have hcount : (1 : Int) ≤ 10 ^ 400 := by decide +kernel
  have hlarge : Number.floatOfInt? (10 ^ 400) = none := by decide +kernel
  have herror : Program.sample (α := Float) ⟨[.constant (.real 1.0)], []⟩ 64
      ⟨0.0, 1.0, 10 ^ 400⟩ "x" [] = .error .countTooLarge := by
    have hgrid : Range.grid (⟨0.0, 1.0, 10 ^ 400⟩ : Range Float) = .error .countTooLarge :=
      Range.grid_error hcount hlarge
    unfold sample
    rw [hgrid]
    rfl
  refine ⟨hcount, ⟨100, _, compile_one, Or.inl rfl⟩, herror, ?_⟩
  rintro ⟨s, hs⟩
  rw [herror] at hs
  cases hs

end CurveCalc
