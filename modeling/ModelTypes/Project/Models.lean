import ModelTypes.Files.Glob
import ModelTypes.Project.Basic
/-!
The models of a project: patterns are expanded to schema modules, and every value that a module
exports with a model's name and schema is a model. The module may itself be one.
-/

namespace ModelTypes

namespace ModulePaths

/-- In the order of their texts, character by character. -/
def sorted (ls : List Location) : List Location :=
  ls.mergeSort fun a b => !(b.text < a.text)

def moduleSuffix : String := ".py"

/-- The locations that a pattern stands for: those of modules that fit it, or the one that it
names, be there such a file or not. -/
def ofPattern (t : FileTree) (root : Location) (pattern : String) : List Location :=
  let l := root.join (.ofText pattern)
  if Wildcard.isWild pattern then (sorted (Glob.search t l)).filter (·.hasSuffix moduleSuffix)
  else [l]

/-- The locations of several patterns, each location where it comes first. -/
def ofPatterns (t : FileTree) (root : Location) (patterns : List String) : List Location :=
  ((patterns.flatMap (ofPattern t root)).map root.resolve).eraseDups

/-- The patterns that no module fits. -/
def unmatched (t : FileTree) (root : Location) (patterns : List String) : List String :=
  patterns.filter fun pattern => (ofPattern t root pattern).isEmpty

end ModulePaths

/-- Models by name. -/
abbrev Models := Keyed SchemaId

namespace Models

/-- Adds a model, if a name and a schema are given. -/
def register (models : Models) (name schema : Option Value) : Models :=
  match name.bind Value.text?, schema with
  | some name, some (.schema id) => if name == "" then models else Keyed.put models name id
  | _, _ => models

/-- Adds the models of a module. Exports whose names start with an underscore do not count. -/
def addModule (models : Models) (s : Store) (exports : Entries) : Models :=
  let own := register models (Keyed.get? exports "model_name") (Keyed.get? exports "schema")
  (exports.filter fun e => !(['_'].isPrefixOf e.1.toList)).foldl (fun models e =>
    register models (s.attribute? e.2 "model_name") (s.attribute? e.2 "schema")) own

end Models

namespace Run

def loaderLogger : String := "schematsgen.core.services.schema_loader"

def modulePaths (root : Location) (patterns : List String) : RunM (List Location) := do
  let t := (← get).files
  for pattern in ModulePaths.unmatched t root patterns do
    note .warning loaderLogger ("No schema modules matched " ++ pattern)
  return ModulePaths.ofPatterns t root patterns

/-- What a module exports. Compiled modules cannot be loaded, and other files are no modules. -/
def moduleExports (path : Location) : RunM Entries := do
  let p ← get
  match p.files.fileAt? (p.directory.join path) with
  | none => throw (.noModule path.text)
  | some content =>
    if path.hasSuffix ModulePaths.moduleSuffix then
      note .debug loaderLogger ("Importing schema module " ++ path.text)
      match content with
      | .module exports => return exports
      | .broken e => throw (.module e)
      | .bytes _ => return []
    else if path.hasSuffix ".pyc" || path.hasSuffix ".so" then throw (.module .imports)
    else throw (.noModule path.text)

def unexportedMessage (path : String) : String :=
  "A module was found at " ++ path ++ ", but no new exported models were found. "
    ++ "If this file contains a schema, ensure its model is exported "
    ++ "and its name does not conflict with others."

/-- Loads modules in order. A model that is already there takes the new schema, where it is. -/
def loadModels (models : Models) : List Location → RunM Models
  | [] => return models
  | path :: rest => do
    let exports ← moduleExports path
    let more := models.addModule (← get).workspace.store exports
    if more.length = models.length then
      note .warning loaderLogger (unexportedMessage path.text)
    else
      note .info loaderLogger
        ("Loaded " ++ toString (more.length - models.length) ++ " model(s) from " ++ path.text)
    loadModels more rest

end Run
end ModelTypes
