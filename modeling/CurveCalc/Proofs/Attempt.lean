import Mathlib.Data.List.Forall2

/-!
What is attempted succeeds or fails as a whole: two attempts one after the other, an attempt whose
result or error is put differently, and the same attempt for each item of a list.
-/

set_option autoImplicit false
set_option relaxedAutoImplicit false

namespace CurveCalc.Attempt

variable {ε ε' β γ : Type}

/-- What is computed in two parts succeeds if both do. -/
theorem bind_eq_ok {a : Except ε β} {f : β → Except ε γ} {z : γ} :
    a.bind f = .ok z ↔ ∃ y, a = .ok y ∧ f y = .ok z := by
  cases a with
  | error e => exact ⟨nofun, fun ⟨_, h, _⟩ ↦ nomatch h⟩
  | ok y => simp [Except.bind]

/-- What is computed in two parts fails as the first of them does, or else as the second. -/
theorem bind_eq_error {a : Except ε β} {f : β → Except ε γ} {e : ε} :
    a.bind f = .error e ↔ a = .error e ∨ ∃ y, a = .ok y ∧ f y = .error e := by
  cases a with
  | error e' =>
    refine ⟨fun h ↦ Or.inl (congrArg _ (Except.error.inj h)), ?_⟩
    rintro (h | ⟨_, h, -⟩)
    · exact congrArg _ (Except.error.inj h)
    · cases h
  | ok y => simp [Except.bind]

theorem bind_of_error {a : Except ε β} {f : β → Except ε γ} {e : ε} (h : a = .error e) :
    a.bind f = .error e := bind_eq_error.mpr (Or.inl h)

theorem bind_of_ok {a : Except ε β} {f : β → Except ε γ} {e : ε} {y : β} (ha : a = .ok y)
    (h : f y = .error e) : a.bind f = .error e := bind_eq_error.mpr (Or.inr ⟨y, ha, h⟩)

theorem map_eq_ok {a : Except ε β} {f : β → γ} {z : γ} :
    a.map f = .ok z ↔ ∃ y, a = .ok y ∧ f y = z := by
  cases a with
  | error e => exact ⟨nofun, fun ⟨_, h, _⟩ ↦ nomatch h⟩
  | ok y => simp [Except.map]

theorem map_eq_error {a : Except ε β} {f : β → γ} {e : ε} :
    a.map f = .error e ↔ a = .error e := by
  cases a with
  | error e' =>
    exact ⟨fun h ↦ congrArg _ (Except.error.inj h), fun h ↦ congrArg _ (Except.error.inj h)⟩
  | ok y => exact ⟨nofun, nofun⟩

theorem mapError_eq_ok {a : Except ε β} {f : ε → ε'} {y : β} :
    a.mapError f = .ok y ↔ a = .ok y := by
  cases a with
  | error e => exact ⟨nofun, nofun⟩
  | ok x =>
    change Except.ok x = .ok y ↔ _
    rw [Except.ok.injEq, Except.ok.injEq]

theorem mapError_ok (y : β) (f : ε → ε') : (Except.ok y).mapError f = .ok y := rfl

theorem mapError_error (e : ε) (f : ε → ε') :
    (Except.error e : Except ε β).mapError f = .error (f e) := rfl

section Items

variable {f : β → Except ε γ}

theorem mapM_ok {P : β → γ → Prop} {items : List β} (h : ∀ b ∈ items, ∃ y, f b = .ok y ∧ P b y) :
    ∃ ys, items.mapM f = .ok ys ∧ List.Forall₂ (fun b y ↦ f b = .ok y ∧ P b y) items ys := by
  induction items with
  | nil => exact ⟨[], rfl, .nil⟩
  | cons b items ih =>
    obtain ⟨y, hy, hP⟩ := h b List.mem_cons_self
    obtain ⟨ys, hys, hall⟩ := ih fun c hc ↦ h c (List.mem_cons_of_mem b hc)
    refine ⟨y :: ys, ?_, .cons ⟨hy, hP⟩ hall⟩
    rw [List.mapM_cons, hy, hys]
    rfl

theorem mapM_eq_ok {items : List β} {ys : List γ} :
    items.mapM f = .ok ys ↔ List.Forall₂ (fun b y ↦ f b = .ok y) items ys := by
  induction items generalizing ys with
  | nil =>
    rw [List.forall₂_nil_left_iff]
    exact ⟨fun h ↦ (Except.ok.inj h).symm, congrArg Except.ok ∘ Eq.symm⟩
  | cons b items ih =>
    rw [List.mapM_cons, List.forall₂_cons_left_iff]
    constructor
    · intro h
      obtain ⟨y, hy, h⟩ := bind_eq_ok.mp h
      obtain ⟨more, hmore, h⟩ := bind_eq_ok.mp h
      exact ⟨y, more, hy, ih.mp hmore, (Except.ok.inj h).symm⟩
    · rintro ⟨y, more, hy, hmore, rfl⟩
      rw [hy, ih.mpr hmore]
      rfl

/-- What each item has been turned into is turned back. -/
theorem mapM_map_eq_ok {f : γ → Except ε β} {g : β → γ} (h : ∀ b, f (g b) = .ok b)
    (items : List β) : (items.map g).mapM f = .ok items := by
  induction items with
  | nil => rfl
  | cons b items ih =>
    rw [List.map_cons, List.mapM_cons, h, ih]
    rfl

theorem mapM_error {items : List β} {e : ε}
    (h : ∀ b ∈ items, (∃ y, f b = .ok y) ∨ f b = .error e) (hfails : ∃ b ∈ items, f b = .error e) :
    items.mapM f = .error e := by
  induction items with
  | nil =>
    obtain ⟨b, hb, -⟩ := hfails
    cases hb
  | cons b items ih =>
    rw [List.mapM_cons]
    rcases h b List.mem_cons_self with ⟨y, hy⟩ | he
    · have hmore : ∃ c ∈ items, f c = .error e := by
        obtain ⟨c, hc, hce⟩ := hfails
        refine ⟨c, (List.mem_cons.mp hc).resolve_left ?_, hce⟩
        rintro rfl
        rw [hy] at hce
        cases hce
      rw [hy, ih (fun c hc ↦ h c (List.mem_cons_of_mem b hc)) hmore]
      rfl
    · rw [he]
      rfl

/-- The first item that fails is the one that counts. -/
theorem mapM_eq_error {items : List β} {e : ε} :
    items.mapM f = .error e ↔ ∃ before b after, items = before ++ b :: after ∧
      (∀ a ∈ before, ∃ y, f a = .ok y) ∧ f b = .error e := by
  induction items with
  | nil =>
    refine ⟨nofun, ?_⟩
    rintro ⟨before, b, after, h, -⟩
    cases before <;> cases h
  | cons a items ih =>
    rw [List.mapM_cons]
    change (f a).bind _ = _ ↔ _
    rw [bind_eq_error]
    constructor
    · rintro (ha | ⟨y, hy, hrest⟩)
      · exact ⟨[], a, items, rfl, List.forall_mem_nil _, ha⟩
      · obtain ⟨before, b, after, rfl, hbefore, hb⟩ := ih.mp (map_eq_error.mp hrest)
        exact ⟨a :: before, b, after, rfl, List.forall_mem_cons.mpr ⟨⟨y, hy⟩, hbefore⟩, hb⟩
    · rintro ⟨before, b, after, h, hbefore, hb⟩
      cases before with
      | nil =>
        cases h
        exact Or.inl hb
      | cons first before =>
        cases h
        obtain ⟨⟨y, hy⟩, hbefore⟩ := List.forall_mem_cons.mp hbefore
        exact Or.inr ⟨y, hy, map_eq_error.mpr (ih.mpr ⟨before, b, after, rfl, hbefore, hb⟩)⟩

end Items

end CurveCalc.Attempt
