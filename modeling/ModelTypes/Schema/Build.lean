import ModelTypes.Schema.Children
import ModelTypes.Tree
import ModelTypes.Value.Copy
/-!
Making and extending schemas. Each operation answers with the workspace it leaves, also when it
fails: fields added before a failure stay.
-/

namespace ModelTypes

/-- Why a schema cannot be made or extended. -/
inductive SchemaError where
  | invalidOptions
  | optionsNotMapping
  | definitionNotMapping
  | containsItself
deriving DecidableEq, Repr

def SchemaError.message : SchemaError → String
  | .invalidOptions => "Invalid schema options"
  | .optionsNotMapping => "Schema options must be a mapping"
  | .definitionNotMapping => "A schema definition must be a mapping"
  | .containsItself => "Schema definition contains itself"

namespace Workspace

/-- Copies fields into a tree, up to the first that contains itself. -/
def copyFields (s : Store) (tree : Entries) : List (String × Value) → Entries × Option SchemaError
  | [] => (tree, none)
  | (key, v) :: rest =>
    match s.copy v with
    | .ok copied => copyFields s (Keyed.put tree key copied) rest
    | .error .containsItself => (tree, some .containsItself)

/-- Adds fields to a schema and finds its children anew. -/
def add (ws : Workspace) (id : SchemaId) (definition : Value) :
    Except SchemaError Unit × Workspace :=
  match ws.store.entries? definition with
  | none => (.error .definitionNotMapping, ws)
  | some fields =>
    match copyFields ws.store (ws.schema id).tree fields with
    | (tree, some e) => (.error e, ws.update id ({ · with tree }))
    | (tree, none) =>
      let (tree, schemas) := (implicitFields tree).run ws.schemas
      (.ok (), { ws with schemas }.update id ({ · with tree, children := childrenOf tree }))

/-- Makes a schema from a definition and options; either may be left out by a value that counts as
false. -/
def create (ws : Workspace) (definition options : Value) (functions : Functions := {}) :
    Except SchemaError SchemaId × Workspace :=
  let given (v : Value) : Value := if ws.store.truthy v then v else .dict []
  match ws.store.entries? (given options) with
  | none => (.error .optionsNotMapping, ws)
  | some entries =>
    match Options.ofEntries? ws.store entries with
    | none => (.error .invalidOptions, ws)
    | some options =>
      match ws.store.entries? (given definition) with
      | none => (.error .definitionNotMapping, ws)
      | some fields =>
        match copyFields ws.store [] fields with
        | (_, some e) => (.error e, ws)
        | (tree, none) =>
          let (id, schemas) := (do
            makeSchema options functions (← implicitFields tree)).run ws.schemas
          (.ok id, { ws with schemas })

/-- Registers a virtual at a path, unless there is one; dotted paths nest. -/
def addVirtual (ws : Workspace) (id : SchemaId) (path : String) : Workspace :=
  ws.update id fun schema =>
    if Keyed.has schema.virtuals path then schema
    else
      { schema with
        virtuals := Keyed.put schema.virtuals path {}
        tree := place path (virtualValue id path) schema.tree }

/-- Gives a registered virtual more functions. -/
def extendVirtual (ws : Workspace) (id : SchemaId) (path : String) (getters setters : Nat) :
    Workspace :=
  ws.update id fun schema =>
    match Keyed.get? schema.virtuals path with
    | some v =>
      { schema with
        virtuals := Keyed.put schema.virtuals path ⟨v.getters + getters, v.setters + setters⟩ }
    | none => schema

/-- What the automatic `id` of a document is: the text of its identifier, if it has one. -/
def documentId (ws : Workspace) (document : Value) : Option String :=
  match ws.store.attribute? document "_id" with
  | none | some .null => none
  | some v => some (ws.store.plainText ws.paths v)

end Workspace
end ModelTypes
