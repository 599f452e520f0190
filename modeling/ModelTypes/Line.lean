import ModelTypes.Value.Literal
/-!
The pieces of a declaration line: its key, unions of literals, and the wrappers of maps and arrays.
-/

namespace ModelTypes.Line

/-! ## Keys -/

def isWordChar (c : Char) : Bool := c.isAlphanum || c == '_'

/-- A key of word characters needs no quotes. -/
def isBareKey (key : String) : Bool := key.toList.all isWordChar

def keyText (key : String) : String := if isBareKey key then key else Text.quote key

/-- The line that gives a key its type; without a key it is the type alone. -/
def entry (key type : String) (optional : Bool := false) (newline : Bool := true) : String :=
  (if key == "" then "" else keyText key ++ (if optional then "?" else "") ++ ": ")
    ++ type ++ ";" ++ (if newline then "\n" else "")

/-! ## Types -/

/-- A member of an enumeration counts as its value. -/
def enumValue (s : Store) (v : Value) : Value :=
  match s.member? v with
  | some (_, _, value) => value
  | none => v

/-- The union of the literals of values; `null` stands last, once. -/
def enumUnion (s : Store) (values : List Value) : Except LiteralError String := do
  let values := values.map (enumValue s)
  let literals ← (values.filter (!·.isNull)).mapM s.literal
  return " | ".intercalate (literals ++ if values.any (·.isNull) then ["null"] else [])

def wrapMap (type : String) (document : Bool) : String :=
  if document then "mongoose.Types.Map<" ++ type ++ ">" else "Map<string, " ++ type ++ ">"

/-- A type with a space in it may be a union, so it is put in parentheses before the suffix. -/
def wrapArray (type : String) (document : Bool) (subdocument : Bool := false) : String :=
  if document then
    "mongoose.Types." ++ (if subdocument then "Document" else "") ++ "Array<" ++ type ++ ">"
  else if type.toList.contains ' ' then "(" ++ type ++ ")[]"
  else type ++ "[]"

end ModelTypes.Line
