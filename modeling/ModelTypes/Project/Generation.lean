import ModelTypes.Declaration
import ModelTypes.Project.Models
/-!
Generating the declaration file of a project. Every model is compiled on its own: one that cannot
be is reported, and the others still make up the file.
-/

namespace ModelTypes

/-- What was generated: the file, the models in it with their blocks, and the models that failed
with the reasons. -/
structure Report where
  file : GeneratedFile
  models : List (String × List String)
  errors : List (String × String)
  written : Bool
deriving DecidableEq, Repr

def Report.ok (r : Report) : Bool := r.errors.isEmpty

/-- A run generates a file, or finds that there is nothing to generate it from. -/
inductive Outcome where
  | report (r : Report)
  | refused (message : String)
deriving DecidableEq, Repr

/-- Compiled models, and the failures of others. -/
structure Batch where
  compiled : Keyed (List PairedBlock) := []
  errors : List (String × String) := []

namespace Run

def generationLogger : String := "schematsgen.core.services.typegen_ops"

def compilerLogger : String := "schematsgen.core.services.typegen.compiler"

def compileModel (plainIds : Bool) (model : String) (id : SchemaId) :
    RunM (Except CompileError (List PairedBlock)) := do
  let p ← get
  let (result, workspace) := (Compile.compile id model plainIds).run.run p.workspace
  set { p with workspace }
  return result

/-- Compiles models in order. A cause that has no wording stops the run. -/
def compileModels (plainIds : Bool) : Models → RunM Batch
  | [] => return {}
  | (model, id) :: rest => do
    match ← compileModel plainIds model id with
    | .ok blocks =>
      note .debug compilerLogger
        ("Compiled " ++ model ++ " into " ++ toString blocks.length ++ " block(s)")
      let batch ← compileModels plainIds rest
      return { batch with compiled := (model, blocks) :: batch.compiled }
    | .error e =>
      match e.message? (← get).workspace with
      | none => throw (.compile e)
      | some message =>
        note .error generationLogger
          ("Failed to generate types for " ++ model ++ ": " ++ message)
        let batch ← compileModels plainIds rest
        return { batch with errors := (model, message) :: batch.errors }

def writeFile (file : GeneratedFile) : RunM Unit := do
  let p ← get
  match p.files.write (p.directory.join (.ofText file.path)) (textBytes file.content) with
  | .error e => throw (.write e)
  | .ok files =>
    set { p with files }
    note .info generationLogger ("Wrote " ++ file.path)

/-- The models that patterns lead to, or the reason why there are none. -/
def findModels (root : Location) (patterns : List String) : RunM (Except String Models) := do
  let paths ← modulePaths root patterns
  if paths.isEmpty then
    return .error ("No schema modules matched: " ++ ", ".intercalate patterns)
  else
    let models ← try Except.ok <$> loadModels [] paths catch
      | .noModule path => pure (.error (noModuleMessage path))
      | e => throw e
    match models with
    | .ok [] => return .error "No models were found in the schema modules"
    | models => return models

/-- Compiles models into the file for an output path, which is read from `root`. -/
def generateFrom (root : Location) (models : Models) (s : Settings) : RunM Report := do
  let batch ← compileModels s.noMongoose models
  let ws := (← get).workspace
  let functionsOf (model : String) : Functions :=
    ((Keyed.get? models model).map fun id => (ws.schema id).functions).getD {}
  let file := Declaration.file batch.compiled functionsOf (root.join (.ofText s.output)).text
    s.noMongoose
  let written := !s.dryRun && !batch.compiled.isEmpty
  if written then writeFile file
  return { file, written, errors := batch.errors
           models := batch.compiled.map fun m => (m.1, m.2.map (·.name)) }

/-- Generates the declaration file of a project from its settings, in which patterns and the output
path are read from `root`. -/
def generate (root : Location) (s : Settings) : RunM Outcome := do
  match ← findModels root s.modelPaths with
  | .error message => return .refused message
  | .ok models => Outcome.report <$> generateFrom root models s

end Run
end ModelTypes
