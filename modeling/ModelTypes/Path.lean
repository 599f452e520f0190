/-!
Dotted paths: a text is cut at every dot, so it always has at least one segment, and segments may
be empty.
-/

namespace ModelTypes

/-- The stretches of a text between separators. -/
def splitChars (sep : Char) : List Char → List (List Char)
  | [] => [[]]
  | c :: cs =>
    match splitChars sep cs with
    | [] => [[c]]
    | word :: words => if c = sep then [] :: word :: words else (c :: word) :: words

def splitText (sep : Char) (s : String) : List String :=
  (splitChars sep s.toList).map String.ofList

namespace Path

def segments (path : String) : List String := splitText '.' path

/-- The path of a key below another path. -/
def child (path key : String) : String := path ++ "." ++ key

/-- Whether `path` lies below `top`. -/
def isBelow (top path : String) : Bool := (top ++ ".").toList.isPrefixOf path.toList

/-- The rest of a path below `top`. -/
def below? (top path : String) : Option String :=
  if isBelow top path then some (String.ofList (path.toList.drop (top.length + 1))) else none

end Path
end ModelTypes
