import CurveCalc.Entries
import Mathlib.Data.List.Nodup

/-!
Looking keys up that have been set, moved or left out. A key is looked up where it was set last
(`Entries.get?_set`, `Entries.get?_update`), and the keys stay distinct (`Entries.nodup_update`).
-/

set_option autoImplicit false
set_option relaxedAutoImplicit false

namespace CurveCalc.Entries

variable {ν : Type}

theorem get?_cons (e : String × ν) (entries : Entries String ν) (key : String) :
    get? (e :: entries) key = if key = e.1 then some e.2 else get? entries key := by
  unfold get?
  rw [List.lookup_cons]
  by_cases hkey : key = e.1
  · rw [if_pos hkey, beq_iff_eq.mpr hkey]
  · rw [if_neg hkey, beq_eq_false_iff_ne.mpr hkey]

theorem get?_eq_none {entries : Entries String ν} {key : String} :
    get? entries key = none ↔ key ∉ entries.map Prod.fst := by
  unfold get?
  rw [List.lookup_eq_none_iff, List.mem_map]
  simp only [bne_iff_ne, not_exists, not_and]
  exact forall₂_congr fun e _ ↦ ne_comm

theorem any_key {entries : Entries String ν} {key : String} :
    (entries.any fun e ↦ e.1 == key) = true ↔ key ∈ entries.map Prod.fst := by
  rw [List.any_eq_true, List.mem_map]
  simp only [beq_iff_eq]

theorem get?_replace (entries : Entries String ν) (key : String) (value : ν) (other : String) :
    get? (entries.map fun e ↦ if e.1 == key then (e.1, value) else e) other =
      if other = key then (get? entries key).map fun _ ↦ value else get? entries other := by
  induction entries with
  | nil =>
    change none = if other = key then none else none
    rw [ite_self]
  | cons e entries ih =>
    rw [List.map_cons, get?_cons, get?_cons, get?_cons, ih]
    by_cases hkey : e.1 = key
    · subst hkey
      rw [if_pos (beq_self_eq_true e.1), if_pos rfl]
      by_cases hother : other = e.1
      · rw [if_pos hother, if_pos hother, Option.map_some]
      · rw [if_neg hother, if_neg hother, if_neg hother, if_neg hother]
    · rw [if_neg (mt beq_iff_eq.mp hkey), if_neg (Ne.symm hkey)]
      by_cases hother : other = e.1
      · rw [if_pos hother, if_pos hother, if_neg (hother ▸ hkey)]
      · rw [if_neg hother, if_neg hother]

theorem get?_set (entries : Entries String ν) (key : String) (value : ν) (other : String) :
    get? (set entries key value) other =
      if other = key then some value else get? entries other := by
  unfold set
  by_cases hkey : key ∈ entries.map Prod.fst
  · rw [if_pos (any_key.mpr hkey), get?_replace]
    obtain ⟨old, hold⟩ := Option.ne_none_iff_exists'.mp (mt get?_eq_none.mp (not_not.mpr hkey))
    rw [hold, Option.map_some]
  · have hlast : get? (entries ++ [(key, value)]) other =
        (get? entries other).or (get? [(key, value)] other) := List.lookup_append
    rw [if_neg (mt any_key.mp hkey), hlast, get?_cons]
    by_cases hother : other = key
    · rw [if_pos hother, if_pos hother, hother, get?_eq_none.mpr hkey, Option.none_or]
    · rw [if_neg hother, if_neg hother]
      exact Option.or_none

/-- Setting a key puts it at the end, unless it is there already. -/
theorem keys_set (entries : Entries String ν) (key : String) (value : ν) :
    (set entries key value).map Prod.fst =
      if key ∈ entries.map Prod.fst then entries.map Prod.fst
      else entries.map Prod.fst ++ [key] := by
  unfold set
  by_cases hkey : key ∈ entries.map Prod.fst
  · rw [if_pos (any_key.mpr hkey), if_pos hkey, List.map_map]
    refine List.map_congr_left fun e _ ↦ ?_
    rw [Function.comp_apply, apply_ite Prod.fst, ite_self]
  · rw [if_neg (mt any_key.mp hkey), if_neg hkey, List.map_append]
    rfl

theorem set_set (entries : Entries String ν) (key : String) (value value' : ν) :
    set (set entries key value) key value' = set entries key value' := by
  have hagain : key ∈ (set entries key value).map Prod.fst := by
    rw [keys_set]
    by_cases hkey : key ∈ entries.map Prod.fst
    · rwa [if_pos hkey]
    · rw [if_neg hkey]
      exact List.mem_append_right _ (List.mem_singleton_self key)
  rw [set, if_pos (any_key.mpr hagain)]
  unfold set
  by_cases hkey : key ∈ entries.map Prod.fst
  · rw [if_pos (any_key.mpr hkey), if_pos (any_key.mpr hkey), List.map_map]
    refine List.map_congr_left fun e _ ↦ ?_
    by_cases he : e.1 = key
    · subst he
      rw [Function.comp_apply, if_pos (beq_self_eq_true e.1), if_pos (beq_self_eq_true e.1),
        if_pos (beq_self_eq_true e.1)]
    · rw [Function.comp_apply, if_neg (mt beq_iff_eq.mp he), if_neg (mt beq_iff_eq.mp he)]
  · have hkept : (entries.map fun e ↦ if e.1 == key then (e.1, value') else e) = entries := by
      refine (List.map_congr_left fun e he ↦ if_neg fun h ↦ hkey ?_).trans (List.map_id entries)
      exact List.mem_map.mpr ⟨e, he, beq_iff_eq.mp h⟩
    rw [if_neg (mt any_key.mp hkey), if_neg (mt any_key.mp hkey), List.map_append, hkept,
      List.map_singleton, if_pos (beq_self_eq_true key)]

theorem nodup_update {entries : Entries String ν} (hentries : (entries.map Prod.fst).Nodup)
    (more : Entries String ν) : ((update entries more).map Prod.fst).Nodup := by
  induction more generalizing entries with
  | nil => exact hentries
  | cons e more ih =>
    refine ih ?_
    rw [keys_set]
    by_cases hkey : e.1 ∈ entries.map Prod.fst
    · rwa [if_pos hkey]
    · rw [if_neg hkey]
      exact hentries.append (List.nodup_singleton e.1)
        (List.disjoint_singleton.mpr hkey)

/-- Where both mappings have a key, the second one counts. -/
theorem get?_update {entries more : Entries String ν} (hmore : (more.map Prod.fst).Nodup)
    (key : String) : get? (update entries more) key = (get? more key).or (get? entries key) := by
  induction more generalizing entries with
  | nil => rfl
  | cons e more ih =>
    rw [List.map_cons, List.nodup_cons] at hmore
    change get? (update (set entries e.1 e.2) more) key = _
    rw [ih hmore.2, get?_set, get?_cons]
    by_cases hkey : key = e.1
    · rw [if_pos hkey, if_pos hkey, hkey, get?_eq_none.mpr hmore.1, Option.none_or, Option.some_or]
    · rw [if_neg hkey, if_neg hkey]

theorem get?_of_names {names : List String} (f : String → ν) {name : String}
    (hname : name ∈ names) :
    get? (names.map fun name ↦ (name, f name)) name = some (f name) := by
  induction names with
  | nil => cases hname
  | cons first names ih =>
    rw [List.map_cons, get?_cons]
    by_cases hfirst : name = first
    · rw [if_pos hfirst, hfirst]
    · rw [if_neg hfirst, ih ((List.mem_cons.mp hname).resolve_left hfirst)]

theorem update_eq_append {entries more : Entries String ν}
    (h : ((entries ++ more).map Prod.fst).Nodup) : update entries more = entries ++ more := by
  induction more generalizing entries with
  | nil => exact (List.append_nil entries).symm
  | cons e more ih =>
    have hnew : e.1 ∉ entries.map Prod.fst := by
      rw [List.map_append, List.map_cons, List.nodup_middle, List.nodup_cons] at h
      exact fun he ↦ h.1 (List.mem_append_left _ he)
    have hset : set entries e.1 e.2 = entries ++ [e] := if_neg (mt any_key.mp hnew)
    have hassoc : entries ++ e :: more = (entries ++ [e]) ++ more := by simp
    change update (set entries e.1 e.2) more = _
    rw [hassoc] at h ⊢
    rw [hset, ih h]

/-- Setting distinct keys one after the other gives them in their order. -/
theorem ofList_eq_self {entries : Entries String ν}
    (h : (entries.map Prod.fst).Nodup) : ofList entries = entries := update_eq_append h

section Moved

variable {place : String → Option String} {entries : Entries String ν} {key : String}

/-- Where one key is all that comes to a place, what it had is found there. -/
theorem get?_moved {source : String} (h : ∀ k, place k = some key ↔ k = source) :
    get? (entries.filterMap fun e ↦ (place e.1).map fun k ↦ (k, e.2)) key =
      get? entries source := by
  induction entries with
  | nil => rfl
  | cons e entries ih =>
    rw [get?_cons, ← ih]
    by_cases hsource : source = e.1
    · rw [if_pos hsource, List.filterMap_cons_some (by rw [(h e.1).mpr hsource.symm]; rfl),
        get?_cons, if_pos rfl]
    · rw [if_neg hsource]
      have hplace : place e.1 ≠ some key := fun he ↦ hsource ((h e.1).mp he).symm
      cases hmoved : place e.1 with
      | none => rw [List.filterMap_cons_none (by rw [hmoved]; rfl)]
      | some k =>
        rw [List.filterMap_cons_some (by rw [hmoved]; rfl), get?_cons, if_neg]
        rintro rfl
        exact hplace hmoved

theorem get?_moved_eq_none (h : ∀ k, place k ≠ some key) :
    get? (entries.filterMap fun e ↦ (place e.1).map fun k ↦ (k, e.2)) key = none := by
  rw [get?_eq_none]
  intro hkey
  obtain ⟨moved, hmoved, rfl⟩ := List.mem_map.mp hkey
  obtain ⟨e, -, he⟩ := List.mem_filterMap.mp hmoved
  obtain ⟨k, hk, rfl⟩ := Option.map_eq_some_iff.mp he
  exact h e.1 hk

end Moved

end CurveCalc.Entries
