/-!
Insertion-ordered maps from text: a list of pairs in which `put` keeps a key at its first place
and gives it its last value.
-/

namespace ModelTypes

abbrev Keyed (α : Type) := List (String × α)

namespace Keyed

variable {α : Type}

def get? (m : Keyed α) (key : String) : Option α := m.lookup key

def has (m : Keyed α) (key : String) : Bool := m.any (·.1 == key)

def put : Keyed α → String → α → Keyed α
  | [], key, value => [(key, value)]
  | (k, v) :: rest, key, value =>
    if k = key then (key, value) :: rest else (k, v) :: put rest key value

def remove (m : Keyed α) (key : String) : Keyed α := m.filter (·.1 != key)

def keys (m : Keyed α) : List String := m.map (·.1)

def values (m : Keyed α) : List α := m.map (·.2)

/-- The map that a sequence of `put`s leaves. -/
def ofPairs (pairs : List (String × α)) : Keyed α :=
  pairs.foldl (fun m p => put m p.1 p.2) []

end Keyed
end ModelTypes
