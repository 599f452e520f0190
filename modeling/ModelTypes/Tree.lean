import ModelTypes.Path
import ModelTypes.Value.Basic
/-!
Trees of mappings and their flat form, in which every leaf stands under its dotted path. A leaf is
whatever is not a mapping with entries; `flatten` keeps the first place and the last value of a
path that occurs twice, and `unflatten` puts one path after the other into an empty tree.
-/

namespace ModelTypes

/-! ## Leaves -/

mutual

/-- The leaves of a value that stands at `path`, in order. -/
def Value.leavesAt (path : String) : Value → List (String × Value)
  | .dict (first :: rest) => leavesUnder (path ++ ".") (first :: rest)
  | v => [(path, v)]

def leavesUnder (lead : String) : List (String × Value) → List (String × Value)
  | [] => []
  | (key, v) :: rest => v.leavesAt (lead ++ key) ++ leavesUnder lead rest

end

/-- The flat form of a tree. -/
def flatten (tree : Entries) : Entries := Keyed.ofPairs (leavesUnder "" tree)

/-! ## Placing a value at a path -/

/-- The entries that stand under a key; none if no mapping stands there. -/
def entriesAt (tree : Entries) (key : String) : Entries :=
  match Keyed.get? tree key with
  | some (.dict entries) => entries
  | _ => []

/-- Puts a value at a path. What stands in the way is replaced by a mapping. -/
def placeAt : List String → Value → Entries → Entries
  | [], _, tree => tree
  | [key], v, tree => Keyed.put tree key v
  | key :: rest, v, tree => Keyed.put tree key (.dict (placeAt rest v (entriesAt tree key)))

def place (path : String) (v : Value) (tree : Entries) : Entries :=
  placeAt (Path.segments path) v tree

def unflatten (flat : Entries) : Entries := flat.foldl (fun tree e => place e.1 e.2 tree) []

/-! ## Replacing a subtree of the flat form -/

/-- Puts a value at `path` where the path, or the first path below it, stood; everything below it
goes away. -/
def replacePath (flat : Entries) (path : String) (v : Value) : Entries :=
  let touches (e : String × Value) : Bool := e.1 == path || Path.isBelow path e.1
  let before := flat.takeWhile fun e => !touches e
  let after := (flat.dropWhile fun e => !touches e).filter fun e => !touches e
  before ++ (path, v) :: after

/-! ## What a flat form puts into empty mappings

An empty mapping is a leaf, so the tree that `unflatten` builds holds the very mapping that the
flattened tree holds. What later paths put below it, they put into both. -/

/-- What the entries after an empty mapping at `path` put into it, until something else takes a
place above it. -/
def filling (path : String) (later : Entries) : Entries :=
  unflatten ((later.takeWhile fun e => !Path.isBelow e.1 path).filterMap fun e =>
    (Path.below? path e.1).map (·, e.2))

/-- The empty mappings of a flat form that get entries, and the entries. -/
def fillings : Entries → List (String × Entries)
  | [] => []
  | (path, .dict []) :: rest =>
    match filling path rest with
    | [] => fillings rest
    | entries => (path, entries) :: fillings rest
  | _ :: rest => fillings rest

mutual

/-- Fills empty mappings by their paths. Of several at one path only the last is held by the flat
form, so a tree is gone through from its end and each filling is used once. -/
def Value.fillAt (path : String) (fills : List (String × Entries)) :
    Value → Value × List (String × Entries)
  | .dict [] =>
    match fills.lookup path with
    | some entries => (.dict entries, fills.filter (·.1 != path))
    | none => (.dict [], fills)
  | .dict (first :: rest) =>
    let (entries, left) := fillUnder (path ++ ".") fills (first :: rest)
    (.dict entries, left)
  | v => (v, fills)

def fillUnder (lead : String) (fills : List (String × Entries)) :
    List (String × Value) → List (String × Value) × List (String × Entries)
  | [] => ([], fills)
  | (key, v) :: rest =>
    let (rest', left) := fillUnder lead fills rest
    let (v', left') := v.fillAt (lead ++ key) left
    ((key, v') :: rest', left')

end

/-- The tree after its flat form, as it has become, was made a tree again. -/
def fillFrom (tree flat : Entries) : Entries :=
  match fillings flat with
  | [] => tree
  | fills => (fillUnder "" fills tree).1

end ModelTypes
