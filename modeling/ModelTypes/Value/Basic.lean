import ModelTypes.Decimal.Double
import ModelTypes.Keyed
import ModelTypes.Kind
/-!
The dynamic values that schema definitions are made of.

A container is held in one of two ways. Containers as they were written are nodes of a `Store`
and referred to by address, so that one container can stand at several places, also inside
itself. Containers that a schema copied for itself are plain trees (`list`, `dict`).
-/

namespace ModelTypes

/-- The place of a node in a store. -/
abbrev Addr := Nat

/-- A schema's identity. -/
abbrev SchemaId := Nat

/-- What is known of a child schema standing in a field: the name of its block, and how the field
declares it. -/
structure Embedding where
  name : String
  isArray : Bool := false
  required : Bool := false
  defaultUndefined : Bool := false
deriving DecidableEq, Repr

/-- A value. `member` names a member of the enumeration at an address, `virtual` a computed
property (registered with its owner, if it has one), `shared` a node of the store, `embedded` a
hoisted child schema. -/
inductive Value where
  | null
  | bool (b : Bool)
  | int (n : Int)
  | float (d : Double)
  | str (s : String)
  | kind (k : Kind)
  | bytes (data : List UInt8)
  | marker (m : TypeMarker)
  | function
  | member (enumeration : Addr) (name : String)
  | virtual (path : String) (owner : Option SchemaId)
  | schema (id : SchemaId)
  | shared (addr : Addr)
  | list (items : List Value)
  | dict (entries : List (String × Value))
  | embedded (e : Embedding) (id : SchemaId)
deriving Inhabited

/-- A container or record as it was written. -/
inductive Node where
  | list (items : List Value)
  | dict (entries : List (String × Value))
  | tuple (items : List Value)
  | object (attributes : List (String × Value))
  | model (name schema : Value)
  | embedded (e : Embedding) (schema : Value)
  | enumeration (name : String) (members : List (String × Value))

/-- All containers written so far. -/
structure Store where
  nodes : List Node := []

abbrev Entries := Keyed Value

/-- Walks that must not enter one place twice end because the places left to enter get fewer. -/
theorem length_erase_lt {places : List Nat} {a : Nat} (h : a ∈ places) :
    (places.erase a).length < places.length := by
  rw [List.length_erase_of_mem h]
  exact Nat.sub_lt (List.length_pos_of_mem h) Nat.one_pos

namespace Store

def addresses (s : Store) : List Addr := List.range s.nodes.length

def node? (s : Store) : Value → Option Node
  | .shared a => s.nodes[a]?
  | _ => none

/-! ## Reading containers of either sort -/

def items? (s : Store) : Value → Option (List Value)
  | .list items => some items
  | v => match s.node? v with
    | some (.list items) => some items
    | _ => none

def entries? (s : Store) : Value → Option Entries
  | .dict entries => some entries
  | v => match s.node? v with
    | some (.dict entries) => some entries
    | _ => none

def tuple? (s : Store) (v : Value) : Option (List Value) :=
  match s.node? v with
  | some (.tuple items) => some items
  | _ => none

/-- The items of a list or tuple. -/
def sequence? (s : Store) (v : Value) : Option (List Value) := (s.items? v).or (s.tuple? v)

def embedding? (s : Store) : Value → Option Embedding
  | .embedded e _ => some e
  | v => match s.node? v with
    | some (.embedded e _) => some e
    | _ => none

/-- The entry of a mapping. -/
def get? (s : Store) (v : Value) (key : String) : Option Value :=
  (s.entries? v).bind (Keyed.get? · key)

/-- A list or tuple, or nothing, that counts by its first item. -/
def first? (s : Store) (v : Value) : Option Value :=
  match s.sequence? v with
  | some items => items.head?
  | none => some v

end Store

namespace Value

/-- The text of a string; a kind is its name. -/
def text? : Value → Option String
  | .str s => some s
  | .kind k => some k.name
  | _ => none

def isNull : Value → Bool
  | .null => true
  | _ => false

def isTrue : Value → Bool
  | .bool b => b
  | _ => false

/-- The kind that a marker names: a kind's name in any letter case, or a type. -/
def kind? : Value → Option Kind
  | .str s => Kind.ofName? s
  | .kind k => Kind.ofName? k.name
  | .marker m => m.kind?
  | _ => none

end Value

/-- Whether a value counts as true: nothing, zero and whatever is empty do not. -/
def Store.truthy (s : Store) (v : Value) : Bool :=
  match v with
  | .null => false
  | .bool b => b
  | .int n => n != 0
  | .float d => !d.isZero
  | .str t => t != ""
  | .bytes data => !data.isEmpty
  | v =>
    match s.sequence? v, s.entries? v with
    | some items, _ => !items.isEmpty
    | none, some entries => !entries.isEmpty
    | none, none => true

end ModelTypes
