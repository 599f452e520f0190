import ModelTypes.Path
import ModelTypes.Text.Case
/-!
Names of hoisted subdocuments: the parent's name and the title-cased segments of the path, without
a plural ending.
-/

namespace ModelTypes.Naming

def dropLast (n : Nat) (word : List Char) : List Char := word.take (word.length - n)

/-- Drops `es` after `ss`, else a single final `s`. -/
def singularChars (word : List Char) : List Char :=
  if "sses".toList.isSuffixOf word then dropLast 2 word
  else if ['s'].isSuffixOf word && !(['s', 's'].isSuffixOf word) then dropLast 1 word
  else word

def singular (word : String) : String := String.ofList (singularChars word.toList)

def titleCase : List Char → List Char
  | [] => []
  | c :: cs => Text.upper c ++ cs

def lowerFirst (s : String) : String :=
  match s.toList with
  | [] => ""
  | c :: cs => String.ofList (Text.lower c ++ cs)

/-- The name of the subdocument at a path of a model. -/
def subdocumentName (path : String) (model : String) : String :=
  String.ofList
    (singularChars (model.toList ++ (splitChars '.' path.toList).flatMap titleCase))

end ModelTypes.Naming
