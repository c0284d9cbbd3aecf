/-!
Keys with values in the order in which the keys first came up. Setting a key that is there already
changes its value and leaves it in its place.
-/

set_option autoImplicit false
set_option relaxedAutoImplicit false

namespace CurveCalc

abbrev Entries (κ ν : Type) := List (κ × ν)

namespace Entries

variable {κ ν : Type} [BEq κ]

def get? (entries : Entries κ ν) (key : κ) : Option ν := entries.lookup key

def set (entries : Entries κ ν) (key : κ) (value : ν) : Entries κ ν :=
  if entries.any fun e ↦ e.1 == key then
    entries.map fun e ↦ if e.1 == key then (e.1, value) else e
  else entries ++ [(key, value)]

/-- Sets the keys of the second list one after the other. -/
def update (entries more : Entries κ ν) : Entries κ ν :=
  more.foldl (fun all e ↦ set all e.1 e.2) entries

def ofList (pairs : List (κ × ν)) : Entries κ ν := update [] pairs

end Entries

end CurveCalc
