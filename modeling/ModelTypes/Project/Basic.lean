import ModelTypes.Compile.Model
import ModelTypes.Log
import ModelTypes.Settings
/-!
A project during a run: its files, the schemas made so far and the log. What a run did before it
failed stays done.
-/

namespace ModelTypes

/-- `directory` is the working directory; `log` has the oldest record first. -/
structure Project where
  files : FileTree := {}
  directory : Location
  workspace : Workspace := {}
  log : List LogRecord := []

/-- Why a run stops. -/
inductive Failure where
  | settings (e : SettingsError)
  | noModule (path : String)
  | module (e : ModuleError)
  | compile (e : CompileError)
  | write (e : WriteError)

def noModuleMessage (path : String) : String := "Could not find a module at path " ++ path ++ "."

def ModuleError.message : ModuleError → String
  | .imports => "A module cannot be imported."
  | .value => "A module holds a value that it must not hold."
  | .schema e => e.message ++ "."

def WriteError.message : WriteError → String
  | .isDirectory => "There is a directory where a file is to be written."
  | .parentIsFile => "There is a file where a directory is to be made."
  | .notDirectory => "A path goes through a file."
  | .noParent => "There is no directory for a file."

def Failure.message (ws : Workspace) : Failure → String
  | .settings e => (e.message?).getD "The config file holds no data."
  | .noModule path => noModuleMessage path
  | .module e => e.message
  | .compile e => (e.message? ws).getD "A value has no literal."
  | .write e => e.message

abbrev RunM := ExceptT Failure (StateM Project)

namespace Run

def note (level : LogLevel) (logger message : String) : RunM Unit :=
  modify fun p => { p with log := p.log ++ [⟨level, logger, message⟩] }

/-! ## Configuration -/

def settingsLogger : String := "schematsgen.core.config.loader"

/-- Reads a configuration file; the second answer is the directory that it is in. -/
def readSettings (file : Location) : RunM (Settings × Location) := do
  let p ← get
  let path := file.text
  match p.files.fileAt? (p.directory.join file) with
  | none => throw (.settings (.missing path))
  | some content =>
    note .debug settingsLogger ("Loading generator config from " ++ path)
    let data := match content with
      | .bytes data => data
      | _ => []
    match Settings.ofBytes path data with
    | .error e => throw (.settings e)
    | .ok settings =>
      note .info settingsLogger
        ("Loaded config from " ++ path ++ " (" ++ toString settings.modelPaths.length
          ++ " model pattern(s))")
      return (settings, p.directory.resolve file.parent)

/-- The settings of a given file, or of the file found from the working directory on, or else the
usual ones. -/
def settings (file : Option Location) : RunM (Settings × Location) := do
  let p ← get
  match file.or (Settings.locate? p.files p.directory) with
  | some file => readSettings file
  | none =>
    note .debug settingsLogger ("No " ++ Settings.fileName ++ " found, using defaults")
    return ({}, p.directory)

end Run
end ModelTypes
