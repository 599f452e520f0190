import ModelTypes.Compile.Model
/-!
The declaration file. Each model has its lean types, the types of its functions and its document
types; without document types the file holds lean types only and augments no module.
-/

namespace ModelTypes

/-- A file to be written. -/
structure GeneratedFile where
  path : String
  content : String
  overwrite : Bool := false
  reason : String := ""
deriving DecidableEq, Repr

namespace Declaration

def fileHeader : String :=
  "/* tslint:disable */\n/* eslint-disable */\n\n"
    ++ "// ######################################## THIS FILE WAS GENERATED BY SCHEMATSGEN"
    ++ " ######################################## //\n\n"
    ++ "// NOTE: ANY CHANGES MADE WILL BE OVERWRITTEN ON SUBSEQUENT EXECUTIONS OF SCHEMATSGEN.\n\n"

/-- Statics that every model has on its own. -/
def automaticFunctions : List String := ["initializeTimestamps"]

/-! ## Sections of a model -/

def leanSection (model : String) (blocks : List PairedBlock) : String :=
  String.join (blocks.map (·.lean)) ++ "export type " ++ model ++ "Object = " ++ model ++ "\n\n"

def documentSection (blocks : List PairedBlock) : String :=
  String.join (blocks.map fun block => block.document.getD "")

/-- A type that lists functions by name. -/
def functionsType (name : String) (functions : List String) (this result : String) : String :=
  "export type " ++ name ++ " = \x7b\n"
    ++ String.join ((functions.filter (!automaticFunctions.contains ·)).map fun function =>
        Line.entry function ("(this: " ++ this ++ ", ...args: any[]) => " ++ result))
    ++ "\x7d\n\n"

def functionSection (model : String) (functions : Functions) : String :=
  let query := model ++ "Query"
  let queries := model ++ "Queries"
  let document := model ++ "Document"
  let modelType := model ++ "Model"
  Comment.ofLines
      ["Mongoose Query type",
       "",
       "This type is returned from query functions. For most use cases, you should not need to use"
         ++ " this type explicitly."]
    ++ "\nexport type " ++ query ++ " = mongoose.Query<any, " ++ document ++ ", " ++ queries
    ++ "> & " ++ queries ++ "\n\n"
    ++ Comment.ofLines
      ["Mongoose Query functions", "",
       "Query functions attached to " ++ model ++ "Schema.query."]
    ++ "\n" ++ functionsType queries functions.query query query
    ++ Comment.ofLines
      ["Mongoose Method functions", "",
       "Instance methods attached to " ++ model ++ "Schema.methods."]
    ++ "\n" ++ functionsType (model ++ "Methods") functions.methods document "any"
    ++ Comment.ofLines
      ["Mongoose Static functions", "", "Statics attached to " ++ model ++ "Schema.statics."]
    ++ "\n" ++ functionsType (model ++ "Statics") functions.statics modelType "any"
    ++ Comment.ofLines
      ["Mongoose Model type",
       "",
       "Pass this type to the Mongoose Model constructor:",
       "```",
       Comment.modelExample model,
       "```"]
    ++ "\nexport type " ++ modelType ++ " = mongoose.Model<" ++ document ++ ", " ++ queries
    ++ "> & " ++ model ++ "Statics\n\n"
    ++ Comment.ofLines
      ["Mongoose Schema type", "", "Assign this type to new Mongoose Schema instances."]
    ++ "\nexport type " ++ model ++ "Schema = mongoose.Schema<" ++ document ++ ", " ++ modelType
    ++ ", " ++ model ++ "Methods, " ++ queries ++ ">\n\n"

def modelSections (noMongoose : Bool) (functions : Functions) (model : String)
    (blocks : List PairedBlock) : String :=
  if noMongoose then leanSection model blocks
  else leanSection model blocks ++ functionSection model functions ++ documentSection blocks

/-! ## The file -/

/-- The declarations of compiled models, in order; `functionsOf` gives the functions of a model. -/
def content (compiled : Keyed (List PairedBlock)) (functionsOf : String → Functions)
    (noMongoose : Bool) : String :=
  let body := String.join (compiled.map fun m =>
    modelSections noMongoose (functionsOf m.1) m.1 m.2)
  if noMongoose then fileHeader ++ body
  else fileHeader ++ "import mongoose from \"mongoose\";\n\n"
    ++ "declare module \"mongoose\" \x7b\n\n" ++ body ++ "\x7d\n"

def file (compiled : Keyed (List PairedBlock)) (functionsOf : String → Functions)
    (path : String) (noMongoose : Bool) : GeneratedFile :=
  { path
    content := content compiled functionsOf noMongoose
    overwrite := true
    reason := "Type declarations for " ++ toString compiled.length ++ " model(s)" }

end Declaration
end ModelTypes
