import ModelTypes.Compile.Blocks
/-!
The declarations of a model: its lean blocks and, unless identifiers are kept plain, its document
blocks, paired in order.
-/

namespace ModelTypes

/-- The declarations of one schema. -/
structure PairedBlock where
  name : String
  lean : String
  document : Option String := none
deriving DecidableEq, Repr

namespace Compile

/-- Pairs the blocks of two projections of one schema. -/
def pairBlocks : List Block → List Block → Except CompileError (List PairedBlock)
  | [], _ => return []
  | lean :: leans, documents =>
    match documents with
    | [] => .error (.unpairedBlock lean.name "")
    | document :: documents =>
      if document.name = lean.name then do
        return ⟨lean.name, lean.text, some document.text⟩ :: (← pairBlocks leans documents)
      else .error (.unpairedBlock lean.name document.name)

/-- What a model's document type extends. -/
def documentBase (ws : Workspace) (id : SchemaId) (model : String) (p : Projection) :
    Except CompileError String := do
  let idText ← idType ws.store p (Keyed.get? (ws.schema id).tree "_id")
  return "mongoose.Document<" ++ idText ++ ", " ++ model ++ "Queries> & " ++ model ++ "Methods"

/-- The projection of a model's lean types. -/
def leanPass (ws : Workspace) (id : SchemaId) (plainIds : Bool) : Projection :=
  { document := false, plainIds, leanVirtuals := (ws.schema id).leanVirtuals }

/-- The projection of a model's document types. -/
def documentPass (ws : Workspace) (id : SchemaId) : Projection :=
  { document := true, leanVirtuals := (ws.schema id).leanVirtuals }

/-- The opening of a model's own lean block. -/
def leanOpening (model : String) : String := Comment.leanHeader (Comment.lean model "") model

/-- The opening of a model's own document block. -/
def documentOpening (model base : String) : String :=
  Comment.documentHeader (Comment.document model) model base

/-- The declarations of a model whose blocks `render` gives. With `plainIds` identifiers are plain
texts and there are no document types. -/
def compileBy (render : Renderer) (id : SchemaId) (model : String) (plainIds : Bool) :
    CompileM (List PairedBlock) := do
  let ws ← get
  let leans ← render model (leanPass ws id plainIds) (leanOpening model)
  if plainIds then
    return leans.map fun block => ⟨block.name, block.text, none⟩
  else
    let p := documentPass ws id
    let base ← documentBase (← get) id model p
    let documents ← render model p (documentOpening model base)
    pairBlocks leans documents

/-- The declarations of a model. -/
def compile (id : SchemaId) (model : String) (plainIds : Bool := false) :
    CompileM (List PairedBlock) :=
  compileBy (fun name p header => renderBlocks id name p header Comment.blockFooter) id model
    plainIds

end Compile

/-! ## Messages -/

def FieldError.message (ws : Workspace) : FieldError → String
  | .unsupported key value =>
    "Unsupported schema type for field '" ++ key ++ "': " ++ ws.display value
  | .tooDeep key =>
    "Field '" ++ key ++ "' is nested more than " ++ toString Field.maxNestingDepth
      ++ " levels deep (self-referencing definition?)"

/-- The wording for causes that have one. -/
def CompileError.message? (ws : Workspace) : CompileError → Option String
  | .field e => some (e.message ws)
  | .render (.unknownShape value) => some ("Unexpected variant: " ++ ws.display value)
  | .render (.literal _) => none
  | .circular place => some ("Schema at '" ++ place ++ "' embeds one of its own ancestors")
  | .unpairedBlock lean document =>
    some ("Block order differs between passes: " ++ document ++ " != " ++ lean)

end ModelTypes
