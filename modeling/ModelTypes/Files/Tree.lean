import ModelTypes.Files.Location
import ModelTypes.Schema.Build
/-!
The files that a run can see and write. A schema module is known by what it exports, or by the
reason why it cannot be loaded.
-/

namespace ModelTypes

/-- Why a schema module cannot be loaded. -/
inductive ModuleError where
  | imports
  | value
  | schema (e : SchemaError)
deriving DecidableEq, Repr

/-- What a file holds. -/
inductive Content where
  | bytes (data : List UInt8)
  | module (exports : Entries)
  | broken (e : ModuleError)

def textBytes (text : String) : List UInt8 := text.toUTF8.toList

/-- Files by the names that lead to them, and directories that may be empty. -/
structure FileTree where
  files : List (List String × Content) := []
  directories : List (List String) := []

/-- Why a file cannot be written. -/
inductive WriteError where
  | isDirectory
  | parentIsFile
  | notDirectory
  | noParent
deriving DecidableEq, Repr

namespace FileTree

def content? (t : FileTree) (place : List String) : Option Content := t.files.lookup place

def isFile (t : FileTree) (place : List String) : Bool := t.files.any (·.1 == place)

def isDirectory (t : FileTree) (place : List String) : Bool :=
  place.isEmpty || t.directories.any place.isPrefixOf
    || t.files.any fun f => place.isPrefixOf f.1 && place != f.1

def contains (t : FileTree) (place : List String) : Bool := t.isFile place || t.isDirectory place

/-- Every place there is, but the root. -/
def places (t : FileTree) : List (List String) :=
  ((t.files.map (·.1) ++ t.directories).flatMap fun place =>
    (List.range place.length).map fun n => place.take (n + 1)).eraseDups

/-- The places strictly below a directory, by the names that lead there from it. -/
def below (t : FileTree) (directory : List String) : List (List String) :=
  t.places.filterMap fun place =>
    if directory.isPrefixOf place && place != directory then some (place.drop directory.length)
    else none

/-! ## Following names -/

/-- The place that names lead to from a place. Only directories can be gone through, the last
name need not exist. -/
def follow (t : FileTree) : List String → List String → Except WriteError (List String)
  | place, [] => .ok place
  | place, name :: rest =>
    if t.isDirectory place then
      t.follow (if name == ".." then place.dropLast else place ++ [name]) rest
    else .error (if t.isFile place then .notDirectory else .noParent)

def locate? (t : FileTree) (l : Location) : Option (List String) := (t.follow [] l.names).toOption

def fileAt? (t : FileTree) (l : Location) : Option Content := (t.locate? l).bind t.content?

/-! ## Writing -/

/-- Makes the directories that names lead to from a place. -/
def makeDirectories (t : FileTree) :
    List String → List String → Except WriteError (List String × FileTree)
  | place, [] => .ok (place, t)
  | place, name :: rest =>
    let next := if name == ".." then place.dropLast else place ++ [name]
    if t.isFile next then .error (if rest.isEmpty then .parentIsFile else .notDirectory)
    else if t.isDirectory next then t.makeDirectories next rest
    else { t with directories := t.directories ++ [next] }.makeDirectories next rest

/-- Puts a file at a place; a file that is there is replaced where it stands. -/
def put (t : FileTree) (place : List String) (content : Content) : FileTree :=
  if t.isFile place then
    { t with files := t.files.map fun f => if f.1 == place then (place, content) else f }
  else { t with files := t.files ++ [(place, content)] }

/-- Writes a file and makes the directories that it needs. -/
def write (t : FileTree) (l : Location) (data : List UInt8) : Except WriteError FileTree := do
  let (directory, t) ← t.makeDirectories [] l.parent.names
  match l.names.getLast? with
  | none | some ".." => .error .isDirectory
  | some name =>
    let place := directory ++ [name]
    if t.isDirectory place then .error .isDirectory else return t.put place (.bytes data)

/-- Adds to the end of a file, or makes it, in a directory that has to be there. -/
def append (t : FileTree) (l : Location) (data : List UInt8) : Except WriteError FileTree := do
  let place ← t.follow [] l.names
  if t.isDirectory place then .error .isDirectory
  else
    match t.content? place with
    | some (.bytes old) => return t.put place (.bytes (old ++ data))
    | _ => return t.put place (.bytes data)

end FileTree
end ModelTypes
