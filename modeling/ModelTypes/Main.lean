import ModelTypes.CommandLine.Command
import Std.Time.DateTime.Timestamp
/-!
The program. The files of the project are named on standard input, one to a line; the schema
modules among them count as modules that export nothing.
-/

namespace ModelTypes.Program

partial def readLines (input : IO.FS.Stream) : IO (List String) := do
  let line ← input.getLine
  if line.isEmpty then return []
  else return line.trimAscii.toString :: (← readLines input)

/-- A file with its place, if it can be read. -/
def readFile? (directory : Location) (path : String) : IO (Option (List String × Content)) := do
  try
    let data ← IO.FS.readBinFile path
    return some ((directory.resolve (.ofText path)).names, .bytes data.toList)
  catch _ => return none

def variableNames : List String := ["TSGEN_LOG_LEVEL", "TSGEN_LOG_FILE", "TSGEN_LOG_FILE_LEVEL"]

def readEnvironment : IO (List (String × String)) :=
  variableNames.filterMapM fun name => return (← IO.getEnv name).map fun value => (name, value)

/-- Writes the files that a run made or changed. -/
def writeChanges (before after : FileTree) : IO Unit :=
  after.files.forM fun (place, content) => do
    let old := match before.content? place with
      | some (.bytes data) => some data
      | _ => none
    match content with
    | .bytes data =>
      if old != some data then
        let l : Location := ⟨"/", place⟩
        IO.FS.createDirAll l.parent.text
        IO.FS.writeBinFile l.text ⟨data.toArray⟩
    | _ => return ()

def now : IO Clock := do
  let stamp ← Std.Time.Timestamp.now
  return .ofSeconds stamp.toSecondsSinceUnixEpoch.val.toNat

def run (arguments : List String) : IO UInt32 := do
  let directory : Location := .ofText ((← IO.getEnv "PWD").getD "/")
  let files ← (← readLines (← IO.getStdin)).filterMapM (readFile? directory)
  let project : Project := { files := { files, directories := [directory.names] }, directory }
  let (response, after) := CommandLine.run (← readEnvironment) (← now) arguments project
  writeChanges project.files after.files
  IO.print response.output
  IO.eprint response.errors
  if let some e := response.failure then
    IO.eprintln (e.message after.workspace)
  return response.exitCode.toUInt32

end ModelTypes.Program

def main (arguments : List String) : IO UInt32 := ModelTypes.Program.run arguments
