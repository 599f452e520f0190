import ModelTypes.Path
/-!
Places in the file system, read from their text: empty names and single dots do not count, two
dots stay until the location is resolved.
-/

namespace ModelTypes

/-- The separators that a location starts with, none if it is relative, and the names that lead to
it. -/
structure Location where
  anchor : String := ""
  names : List String
deriving DecidableEq, Repr

namespace Location

/-- Two separators at the start are kept, three or more count as one. -/
def anchorOf : List Char → String
  | '/' :: '/' :: '/' :: _ => "/"
  | '/' :: '/' :: _ => "//"
  | '/' :: _ => "/"
  | _ => ""

def ofText (text : String) : Location :=
  ⟨anchorOf text.toList, (splitText '/' text).filter fun name => name != "" && name != "."⟩

def text (l : Location) : String :=
  if l.anchor == "" && l.names.isEmpty then "."
  else l.anchor ++ "/".intercalate l.names

def isAbsolute (l : Location) : Bool := l.anchor != ""

/-- What a location is when read from a directory. -/
def join (directory l : Location) : Location :=
  if l.isAbsolute then l else ⟨directory.anchor, directory.names ++ l.names⟩

def parent (l : Location) : Location := { l with names := l.names.dropLast }

/-- Names without two dots: each pair of dots takes back the name before it. -/
def collapse (names : List String) : List String :=
  names.foldl (fun done name => if name == ".." then done.dropLast else done ++ [name]) []

/-- The absolute location without dots that a location has when read from a directory. -/
def resolve (directory l : Location) : Location := ⟨"/", collapse (directory.join l).names⟩

/-- Whether the text of a location ends in a suffix. -/
def hasSuffix (l : Location) (suffix : String) : Bool :=
  suffix.toList.isSuffixOf l.text.toList

end Location
end ModelTypes
