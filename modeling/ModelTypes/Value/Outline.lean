import ModelTypes.Value.Enumeration
/-!
A value opened up into a finite tree: containers are followed until one is met inside itself,
which stands as `again`. Texts of values are written from outlines.
-/

namespace ModelTypes

/-- The sorts of containers that can be met inside themselves. -/
inductive Enclosure where
  | list | dict | tuple | object | record
deriving DecidableEq, Repr

inductive Outline where
  | leaf (v : Value)
  | list (items : List Outline)
  | dict (entries : List (String × Outline))
  | tuple (items : List Outline)
  | object (attributes : List (String × Outline))
  | model (name schema : Outline)
  | embedded (e : Embedding) (schema : Outline)
  | enumeration (name : String)
  | member (enumeration name : String) (value : Outline)
  | again (e : Enclosure)

def Node.enclosure? : Node → Option Enclosure
  | .list _ => some .list
  | .dict _ => some .dict
  | .tuple _ => some .tuple
  | .object _ => some .object
  | .model _ _ | .embedded _ _ => some .record
  | .enumeration _ _ => none

/-- Opens a node whose contents `inner` opens. -/
def Node.outline (inner : Value → Outline) : Node → Outline
  | .list items => .list (items.map inner)
  | .dict entries => .dict (entries.map fun e => (e.1, inner e.2))
  | .tuple items => .tuple (items.map inner)
  | .object attributes => .object (attributes.map fun e => (e.1, inner e.2))
  | .model name schema => .model (inner name) (inner schema)
  | .embedded e schema => .embedded e (inner schema)
  | .enumeration name _ => .enumeration name

/-- Opens a value written by the user. `fresh` holds the addresses that do not enclose it. -/
def Store.outlineShared (s : Store) (fresh : List Addr) (v : Value) : Outline :=
  match v with
  | .shared a =>
    match s.nodes[a]? with
    | none => .leaf v
    | some node =>
      if a ∈ fresh then node.outline fun inner => s.outlineShared (fresh.erase a) inner
      else match node.enclosure? with
        | some e => .again e
        | none => .leaf v
  | .member a _ =>
    match s.member? v with
    | some (enumeration, name, value) =>
      if a ∈ fresh then .member enumeration name (s.outlineShared (fresh.erase a) value)
      else .leaf v
    | none => .leaf v
  | v => .leaf v
termination_by fresh.length
decreasing_by all_goals exact length_erase_lt ‹a ∈ fresh›

mutual

/-- Opens any value. -/
def Store.outline (s : Store) : Value → Outline
  | .list items => .list (s.outlineItems items)
  | .dict entries => .dict (s.outlineEntries entries)
  | .embedded e id => .embedded e (.leaf (.schema id))
  | v => s.outlineShared s.addresses v

def Store.outlineItems (s : Store) : List Value → List Outline
  | [] => []
  | v :: rest => s.outline v :: s.outlineItems rest

def Store.outlineEntries (s : Store) : List (String × Value) → List (String × Outline)
  | [] => []
  | (key, v) :: rest => (key, s.outline v) :: s.outlineEntries rest

end

end ModelTypes
