import ModelTypes.Files.Tree
import ModelTypes.Yaml.Document
/-!
The settings of a project, read from its configuration file. The file holds them directly or under
the key `tsgen`; what it leaves out has a default, and other keys do not count.
-/

namespace ModelTypes

/-- What to generate: patterns for schema modules and the place of the output, both read from the
directory of the configuration file. -/
structure Settings where
  modelPaths : List String := ["models/*.py"]
  output : String := "types/mongoose.gen.ts"
  noMongoose : Bool := false
  dryRun : Bool := false
deriving DecidableEq, Repr

/-- Why there are no settings. The last three are no faults in the settings themselves: the file
holds no text, or data that does not exist. -/
inductive SettingsError where
  | missing (path : String)
  | malformed (path : String)
  | notMapping (path typeName : String)
  | sectionNotMapping (path : String)
  | invalid
  | notText
  | noData (e : Yaml.Error)
deriving DecidableEq, Repr

/-- The wording for faults in the settings. -/
def SettingsError.message? : SettingsError → Option String
  | .missing path => some ("Config file not found: " ++ path)
  | .malformed path => some ("Invalid YAML in " ++ path)
  | .notMapping path typeName =>
    some ("Expected a YAML mapping in " ++ path ++ ", got " ++ typeName)
  | .sectionNotMapping path => some ("Expected a mapping under 'tsgen' in " ++ path)
  | .invalid => some "Invalid generator configuration"
  | .notText => none
  | .noData _ => none

namespace Settings

def fileName : String := "tsgen.yml"

/-! ## Values -/

/-- The text that a setting gives. -/
def text? (doc : Yaml.Document) (id : Nat) : Option String :=
  match doc.item id with
  | .datum (.str t) => if t.isText then some t.text else none
  | .datum (.bytes data) => Options.bytesText? data
  | _ => none

/-- The flag that a setting gives, in any spelling of a flag. -/
def flag? (doc : Yaml.Document) (id : Nat) : Option Bool :=
  match doc.item id with
  | .datum (.bool b) => some b
  | .datum (.int n) => Options.flag? (.int n)
  | .datum (.float d) => Options.flag? (.float d)
  | _ => (text? doc id).bind Options.wordFlag?

/-- The texts that a setting lists; a single text counts as a list. -/
def texts? (doc : Yaml.Document) (id : Nat) : Option (List String) :=
  match doc.item id with
  | .datum (.str _) => (text? doc id).map ([·])
  | .list items => items.mapM (text? doc)
  | .set members => List.eraseDups <$> members.mapM (text? doc)
  | .pairs 0 => some []
  | _ => none

/-- A setting under its key, or its default. -/
def read? {α : Type} (doc : Yaml.Document) (entries : List (Nat × Nat)) (key : String) (default : α)
    (reader : Yaml.Document → Nat → Option α) : Option α :=
  match doc.get? entries key with
  | some id => reader doc id
  | none => some default

def ofEntries? (doc : Yaml.Document) (entries : List (Nat × Nat)) : Option Settings := do
  let usual : Settings := {}
  return { modelPaths := ← read? doc entries "model_paths" usual.modelPaths texts?
           output := ← read? doc entries "output" usual.output text?
           noMongoose := ← read? doc entries "no_mongoose" usual.noMongoose flag?
           dryRun := ← read? doc entries "dry_run" usual.dryRun flag? }

/-! ## The file -/

/-- The entries that hold the settings. An empty document, or an empty section, holds none. -/
def sectionOf (doc : Yaml.Document) (path : String) :
    Except SettingsError (List (Nat × Nat)) :=
  match doc.item doc.root with
  | .datum .null => .ok []
  | .mapping entries =>
    match doc.get? entries "tsgen" with
    | none => .ok entries
    | some id =>
      match doc.item id with
      | .mapping entries => .ok entries
      | _ => if doc.isFalse id then .ok [] else .error (.sectionNotMapping path)
  | _ => .error (.notMapping path (doc.typeName doc.root))

/-- The text of lines that may end in a carriage return, a line feed, or both. -/
def plainLines : List Char → List Char
  | '\r' :: '\n' :: rest => '\n' :: plainLines rest
  | '\r' :: rest => '\n' :: plainLines rest
  | c :: rest => c :: plainLines rest
  | [] => []

/-- The settings in the bytes of a file. -/
def ofBytes (path : String) (data : List UInt8) : Except SettingsError Settings :=
  match String.fromUTF8? ⟨data.toArray⟩ with
  | none => .error .notText
  | some text =>
    match Yaml.Document.read (String.ofList (plainLines text.toList)) with
    | .error .malformed => .error (.malformed path)
    | .error e => .error (.noData e)
    | .ok doc =>
      match sectionOf doc path with
      | .error e => .error e
      | .ok entries =>
        match ofEntries? doc entries with
        | some settings => .ok settings
        | none => .error .invalid

/-! ## Finding the file -/

/-- Looks for a configuration file in a directory and then in those above it, in `levels` of them
at most. -/
def find? (t : FileTree) : Nat → List String → Option Location
  | 0, _ => none
  | levels + 1, directory =>
    let place := directory ++ [fileName]
    if t.isFile place then some ⟨"/", place⟩
    else if directory.isEmpty then none
    else find? t levels directory.dropLast

def searchLevels : Nat := 20

/-- The configuration file for a directory. -/
def locate? (t : FileTree) (directory : Location) : Option Location :=
  find? t searchLevels directory.names

end Settings
end ModelTypes
