import ModelTypes.Value.Basic
/-!
Copying a definition: every list and mapping reachable through lists and mappings becomes a plain
tree, all else is kept as it is. A container that stands inside itself has no such copy.
-/

namespace ModelTypes

/-- Says that a list or mapping contains itself. -/
inductive CopyError where
  | containsItself
deriving DecidableEq, Repr

/-- Copies a value. `fresh` holds the addresses that do not enclose it. -/
def Store.copyFrom (s : Store) (fresh : List Addr) (v : Value) : Except CopyError Value :=
  match v with
  | .shared a =>
    match s.nodes[a]? with
    | some (.list items) =>
      if a ∈ fresh then
        .list <$> items.mapM fun item => s.copyFrom (fresh.erase a) item
      else .error .containsItself
    | some (.dict entries) =>
      if a ∈ fresh then
        .dict <$> entries.mapM fun e => (e.1, ·) <$> s.copyFrom (fresh.erase a) e.2
      else .error .containsItself
    | _ => .ok v
  | v => .ok v
termination_by fresh.length
decreasing_by all_goals exact length_erase_lt ‹a ∈ fresh›

def Store.copy (s : Store) (v : Value) : Except CopyError Value := s.copyFrom s.addresses v

end ModelTypes
