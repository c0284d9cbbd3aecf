import CurveCalc.Document.Format

/-!
Plain data, which formats of files are about: truth values, numbers and texts, in lists and in
mappings. Such data can be compared (`Value.alike`), so that what is in a file with a given text can
be found out (`DataFormat.load_eq_of_alike`).
-/

set_option autoImplicit false
set_option relaxedAutoImplicit false

namespace CurveCalc

namespace Value

/-- Data of truth values, numbers and texts, in lists and in mappings from distinct texts. -/
inductive Plain : Value → Prop
  | bool (b : Bool) : Plain (.bool b)
  | int (n : Int) : Plain (.int n)
  | float (x : Float) : Plain (.float x)
  | text (s : String) : Plain (.text s)
  | list {items : List Value} (hitems : ∀ v ∈ items, Plain v) : Plain (.list items)
  | mapping {entries : List (Value × Value)} (names : List String) (hnames : names.Nodup)
    (hkeys : entries.map Prod.fst = names.map .text) (hvalues : ∀ e ∈ entries, Plain e.2) :
    Plain (.mapping entries)

mutual

/-- Whether two values are the same, of nothing or of plain data. -/
def alike : Value → Value → Bool
  | null, null => true
  | bool a, bool b => a == b
  | int m, int n => m == n
  | float x, float y => decide (x = y)
  | text s, text t => s == t
  | list items, list items' => alikeItems items items'
  | mapping entries, mapping entries' => alikeEntries entries entries'
  | _, _ => false

def alikeItems : List Value → List Value → Bool
  | [], [] => true
  | v :: rest, v' :: rest' => alike v v' && alikeItems rest rest'
  | _, _ => false

def alikeEntries : List (Value × Value) → List (Value × Value) → Bool
  | [], [] => true
  | (k, v) :: rest, (k', v') :: rest' => alike k k' && alike v v' && alikeEntries rest rest'
  | _, _ => false

end

mutual

theorem eq_of_alike : ∀ v v' : Value, alike v v' = true → v = v'
  | null, v', h => by cases v' <;> simp_all [alike]
  | bool b, v', h => by cases v' <;> simp_all [alike]
  | int n, v', h => by cases v' <;> simp_all [alike]
  | float x, v', h => by cases v' <;> simp_all [alike]
  | text s, v', h => by cases v' <;> simp_all [alike]
  | list items, v', h => by
    cases v' with
    | list items' => exact congrArg list (eq_of_alikeItems items items' h)
    | _ => simp [alike] at h
  | mapping entries, v', h => by
    cases v' with
    | mapping entries' => exact congrArg mapping (eq_of_alikeEntries entries entries' h)
    | _ => simp [alike] at h
  | bytes _, v', h | day _, v', h | moment _, v', h | pair _ _, v', h | set _, v', h
  | knot _ _, v', h | back _, v', h => by simp [alike] at h

theorem eq_of_alikeItems : ∀ items items' : List Value, alikeItems items items' = true →
    items = items'
  | [], [], _ => rfl
  | [], _ :: _, h | _ :: _, [], h => by simp [alikeItems] at h
  | v :: rest, v' :: rest', h => by
    rw [alikeItems, Bool.and_eq_true] at h
    rw [eq_of_alike v v' h.1, eq_of_alikeItems rest rest' h.2]

theorem eq_of_alikeEntries : ∀ entries entries' : List (Value × Value),
    alikeEntries entries entries' = true → entries = entries'
  | [], [], _ => rfl
  | [], _ :: _, h | _ :: _, [], h => by simp [alikeEntries] at h
  | (k, v) :: rest, (k', v') :: rest', h => by
    rw [alikeEntries, Bool.and_eq_true, Bool.and_eq_true] at h
    rw [eq_of_alike k k' h.1.1, eq_of_alike v v' h.1.2, eq_of_alikeEntries rest rest' h.2]

end

end Value

theorem DataFormat.load_eq_of_alike {format : DataFormat} {text : String} {v : Value}
    (h : (format.load text).toOption.map (Value.alike v) = some true) :
    format.load text = .ok v := by
  cases hload : format.load text with
  | error e =>
    rw [hload] at h
    cases h
  | ok v' =>
    rw [hload] at h
    exact congrArg Except.ok (Value.eq_of_alike v v' (Option.some.inj h)).symm

end CurveCalc
