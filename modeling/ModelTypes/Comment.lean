import ModelTypes.Naming
/-!
Doc comments and the opening lines of declaration blocks.
-/

namespace ModelTypes.Comment

/-- A line of a comment; an empty one is the star alone. -/
def textLine (line : String) : String := (if line == "" then " *" else " * " ++ line) ++ "\n"

def ofLines (lines : List String) : String :=
  "/**\n" ++ String.join (lines.map textLine) ++ " */"

/-- The comment of a lean block; `name` is the block, `model` the document it comes from. -/
def lean (model : String) (name : String) : String :=
  let variable' := Naming.lowerFirst model
  ofLines
    ["Lean version of " ++ (if name == "" then model else name) ++ "Document",
     "",
     "This has all ORM getters & functions removed. This type will be returned from `"
       ++ model ++ "Document.toObject()`.",
     "```",
     "const " ++ variable' ++ "Object = " ++ variable' ++ ".toObject();",
     "```"]

/-- How a model of a document type is made. -/
def modelExample (model : String) : String :=
  "const " ++ model ++ " = mongoose.model<" ++ model ++ "Document, " ++ model ++ "Model>(\""
    ++ model ++ "\", " ++ model ++ "Schema);"

def document (model : String) : String :=
  ofLines
    ["Mongoose Document type",
     "",
     "Pass this type to the Mongoose Model constructor:",
     "```",
     modelExample model,
     "```"]

def subdocument (model path : String) : String :=
  ofLines
    ["Mongoose Subdocument type",
     "",
     "Type of `" ++ model ++ "Document[\"" ++ path ++ "\"]` element."]

/-! ## Blocks -/

def leanHeader (docs name : String) : String := docs ++ "\nexport type " ++ name ++ " = \x7b\n"

def documentHeader (docs name base : String) : String :=
  docs ++ "\nexport type " ++ name ++ "Document = " ++ base ++ " & \x7b\n"

def blockFooter : String := "\x7d\n\n"

end ModelTypes.Comment
