import ModelTypes.CommandLine.Arguments
import ModelTypes.CommandLine.Clock
import ModelTypes.Project.Generation
import ModelTypes.Text.Json
/-!
The command line: options for all commands, a command, and the command's own arguments. A run
answers with what it prints, its exit code and the project it leaves.
-/

namespace ModelTypes.CommandLine

/-- What a run prints and its exit code. `failure` is what kept it from coming to its own end. -/
structure Response where
  exitCode : Nat := 0
  output : String := ""
  errors : String := ""
  failure : Option Failure := none

def version : String := "0.1.0"

def commandName : String := "schematsgen"

/-! ## Options -/

def commonOptions : List OptionSpec :=
  [⟨"verbose", ["--verbose"], some 'v', false⟩, ⟨"quiet", ["--quiet"], some 'q', false⟩,
   ⟨"debug", ["--debug"], none, false⟩, ⟨"config", ["--config"], some 'c', true⟩,
   ⟨"version", ["--version"], none, false⟩, ⟨"help", ["--help"], none, false⟩]

def generateOptions : List OptionSpec :=
  [⟨"output", ["--output"], some 'o', true⟩, ⟨"no-mongoose", ["--no-mongoose"], none, false⟩,
   ⟨"dry-run", ["--dry-run"], none, false⟩, ⟨"json", ["--json-output", "--json"], none, false⟩,
   ⟨"help", ["--help"], none, false⟩]

/-- The value of an option, if it is not empty. -/
def given? (a : Arguments) (name : String) : Option String :=
  (a.last? name).bind fun value => if value == "" then none else some value

def generateUsage : String :=
  "Usage: " ++ commandName ++ " generate [OPTIONS] [MODEL_PATHS]...\n"

def usage : String := "Usage: " ++ commandName ++ " [OPTIONS] COMMAND [ARGS]...\n"

/-! ## Reports -/

def reportJson (r : Report) : JsonValue :=
  .object
    [("ok", .bool r.ok),
     ("file", .object
       [("path", .str r.file.path), ("content", .str r.file.content),
        ("overwrite", .bool r.file.overwrite), ("reason", .str r.file.reason)]),
     ("models", .list (r.models.map fun (name, blocks) =>
       .object [("name", .str name), ("blocks", .list (blocks.map .str))])),
     ("errors", .list (r.errors.map fun (model, error) =>
       .object [("model", .str model), ("error", .str error)])),
     ("written", .bool r.written)]

def outcomeJson : Outcome → JsonValue
  | .report r => reportJson r
  | .refused message => .object [("error", .str message)]

def failureLine (message : String) : String := "❌ " ++ message ++ "\n"

/-- The models of a report with their blocks; a model's own block is not listed. -/
def modelLines (r : Report) : String :=
  String.join (r.models.map fun (name, blocks) =>
    "✅ " ++ name ++ "\n" ++ String.join (blocks.dropLast.map fun block => "   └ " ++ block ++ "\n"))

/-- A dry run prints the file, and everything else as errors. -/
def reportResponse (r : Report) (dryRun quiet : Bool) : Response :=
  let models := if quiet then "" else modelLines r
  { exitCode := if r.ok then 0 else 1
    output := (if dryRun then r.file.content ++ "\n" else models)
      ++ (if r.written && !quiet then "📝 " ++ r.file.path ++ "\n" else "")
    errors := (if dryRun then models else "")
      ++ String.join (r.errors.map fun (model, error) => failureLine (model ++ ": " ++ error)) }

def outcomeResponse (o : Outcome) (json dryRun quiet : Bool) : Response :=
  let success := match o with
    | .report r => r.ok
    | .refused _ => false
  if json then
    { exitCode := if success then 0 else 1, output := (outcomeJson o).render 0 ++ "\n" }
  else
    match o with
    | .report r => reportResponse r dryRun quiet
    | .refused message => { exitCode := 1, errors := failureLine message }

/-! ## The command -/

/-- The settings that a configuration and arguments make together. Paths among the arguments are
read from the working directory. -/
def combine (p : Project) (configured : Settings) (a : Arguments) : Settings :=
  { modelPaths := if a.rest.isEmpty then configured.modelPaths
      else a.rest.map fun path => (p.directory.join (.ofText path)).text
    output := match given? a "output" with
      | some path => (p.directory.resolve (.ofText path)).text
      | none => configured.output
    noMongoose := a.has "no-mongoose" || configured.noMongoose
    dryRun := a.has "dry-run" || configured.dryRun }

/-- Generates the declaration file; faults in the configuration are told. -/
def generate (common a : Arguments) : RunM Response := do
  let configured ← try Except.ok <$> Run.settings ((given? common "config").map .ofText) catch
    | .settings e =>
      match e.message? with
      | some message => pure (.error message)
      | none => throw (.settings e)
    | e => throw e
  match configured with
  | .error message => return { exitCode := 1, errors := failureLine message }
  | .ok (configured, root) =>
    let s := combine (← get) configured a
    let outcome ← Run.generate root s
    return outcomeResponse outcome (a.has "json") s.dryRun (common.has "quiet")

/-! ## Running -/

/-- The name of the console level: the first option that sets one, else the environment. -/
def levelName (environment : List (String × String)) (common : Arguments) : String :=
  if common.has "debug" then "DEBUG"
  else if common.has "verbose" then "INFO"
  else if common.has "quiet" then "ERROR"
  else (environment.lookup "TSGEN_LOG_LEVEL").getD "WARNING"

def logText (setup : Log.Setup) (clock : Clock) (target : Log.Target) (records : List LogRecord) :
    String :=
  String.join ((setup.handlers.filter (·.target == target)).flatMap fun h =>
    (h.lines setup (if target == .console then clock.time else clock.dateTime) records).map
      (· ++ "\n"))

def logFile? (environment : List (String × String)) : Option Location :=
  match environment.lookup "TSGEN_LOG_FILE" with
  | none | some "" => none
  | some path => some (.ofText path)

/-- Adds to the log file, if there is one; it is made also when there is nothing to add. -/
def appendLog (p : Project) (file : Option Location) (text : String) :
    Except WriteError Project :=
  match file with
  | none => .ok p
  | some l => (p.files.append (p.directory.join l) (textBytes text)).map fun files =>
      { p with files }

def usageResponse (e : UsageError) : Response :=
  { exitCode := 2, errors := "Error: " ++ e.message ++ "\n" }

/-- Runs the command that follows the common options, with the log set up for it. -/
def runCommand (environment : List (String × String)) (clock : Clock) (common : Arguments)
    (arguments : List String) (p : Project) : Response × Project :=
  let file := logFile? environment
  let setup := Log.setup (levelName environment common) file.isSome
    ((environment.lookup "TSGEN_LOG_FILE_LEVEL").getD "") (!common.has "debug")
  match appendLog p file "" with
  | .error e => ({ exitCode := 1, failure := some (.write e) }, p)
  | .ok p =>
    match Arguments.read generateOptions true none arguments with
    | .error e => (usageResponse e, p)
    | .ok a =>
      if a.has "help" then ({ output := generateUsage }, p)
      else
        let (result, p) := ((generate common a).run).run p
        let response := match result with
          | .ok response => response
          | .error e => { exitCode := 1, failure := some e }
        let p := (appendLog p file (logText setup clock .file p.log)).toOption.getD p
        ({ response with errors := logText setup clock .console p.log ++ response.errors }, p)

/-- The first option that asks for nothing but a text. -/
def askedText? (common : Arguments) : Option String :=
  (common.options.find? fun o => o.1 == "version" || o.1 == "help").map fun o =>
    if o.1 == "version" then commandName ++ ", version " ++ version ++ "\n" else usage

/-- Runs the program. -/
def run (environment : List (String × String)) (clock : Clock) (arguments : List String)
    (p : Project) : Response × Project :=
  match Arguments.read commonOptions false none arguments with
  | .error e => (usageResponse e, p)
  | .ok common =>
    match askedText? common, common.rest with
    | some text, _ => ({ output := text }, p)
    | none, [] => (usageResponse .missingCommand, p)
    | none, command :: rest =>
      if command == "generate" then runCommand environment clock common rest p
      else (usageResponse (.noSuchCommand command), p)

end ModelTypes.CommandLine
