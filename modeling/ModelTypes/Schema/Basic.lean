import ModelTypes.Schema.Options
import ModelTypes.Value.Display
/-!
Schemas and the workspace they live in. A schema is known by its place in the workspace, so that
schemas can embed one another, and themselves.
-/

namespace ModelTypes

/-- A child schema declared at a path of its parent. -/
structure ChildBinding where
  path : String
  schema : SchemaId
  isArray : Bool := false
deriving DecidableEq, Repr

/-- How many functions a virtual has. -/
structure Virtual where
  getters : Nat := 0
  setters : Nat := 0
deriving DecidableEq, Repr

/-- The names of the functions attached to a schema. -/
structure Functions where
  methods : List String := []
  statics : List String := []
  query : List String := []
deriving DecidableEq, Repr

structure Schema where
  options : Options := {}
  functions : Functions := {}
  virtuals : Keyed Virtual := []
  tree : Entries := []
  children : List ChildBinding := []
deriving Inhabited

/-- Whether lean objects of a schema carry its virtuals. -/
def Schema.leanVirtuals (schema : Schema) : Bool := schema.options.toObject.includesVirtuals

/-- All containers written so far and all schemas made so far. -/
structure Workspace where
  store : Store := {}
  schemas : List Schema := []

namespace Workspace

def schema (ws : Workspace) (id : SchemaId) : Schema := ws.schemas[id]?.getD {}

def ids (ws : Workspace) : List SchemaId := List.range ws.schemas.length

def update (ws : Workspace) (id : SchemaId) (f : Schema → Schema) : Workspace :=
  { ws with schemas := ws.schemas.modify id f }

/-- The top-level keys of a schema. -/
def paths (ws : Workspace) (id : SchemaId) : List String := Keyed.keys (ws.schema id).tree

def display (ws : Workspace) (v : Value) : String := ws.store.display ws.paths v

end Workspace
end ModelTypes
