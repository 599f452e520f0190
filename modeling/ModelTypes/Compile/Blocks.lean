import ModelTypes.Comment
import ModelTypes.Field.Describe
import ModelTypes.Field.Render
import ModelTypes.Schema.Basic
import ModelTypes.Tree
/-!
Declaration blocks of a schema in one projection. Child schemas are hoisted into blocks of their
own, which come before their parent's; in the parent a child's path holds a reference to its block.
A schema that encloses itself has no blocks.
-/

namespace ModelTypes

/-- Why a schema has no declarations. -/
inductive CompileError where
  | field (e : FieldError)
  | render (e : RenderError)
  | circular (place : String)
  | unpairedBlock (lean document : String)

/-- Work on a workspace that keeps what it changed when it fails. -/
abbrev CompileM := ExceptT CompileError (StateM Workspace)

/-- What work gives, and the workspace it leaves. -/
def CompileM.on {α : Type} (work : CompileM α) (ws : Workspace) :
    Except CompileError α × Workspace :=
  work.run.run ws

/-- Declaration text of one schema. -/
structure Block where
  name : String
  text : String
deriving DecidableEq, Repr

namespace Compile

/-! ## Lines of a block -/

/-- The type of a field, if the projection declares the field. -/
def fieldType? (s : Store) (p : Projection) (key : String) (raw : Value) :
    Except CompileError (Option String) := do
  match ← (Field.describe s key raw).mapError .field with
  | some field => (Render.type? s p field).mapError .render
  | none => return none

/-- The declaration line of a field, empty if it is left out. -/
def fieldLine (s : Store) (p : Projection) (key : String) (raw : Value) :
    Except CompileError String := do
  match ← (Field.describe s key raw).mapError .field with
  | some field => (Render.line s p field).mapError .render
  | none => return ""

def bodyText (s : Store) (p : Projection) (tree : Entries) : Except CompileError String := do
  return String.join (← tree.mapM fun e => fieldLine s p e.1 e.2)

/-- The type of a document's identifier: the type of the field `_id`, or `never`. -/
def idType (s : Store) (p : Projection) (raw : Option Value) : Except CompileError String :=
  match raw with
  | some raw => do return (← fieldType? s p "_id" raw).getD "never"
  | none => return "never"

/-! ## Children -/

/-- Whether an option says `true`, itself or as the first of several. -/
def saysTrue (s : Store) (v : Option Value) : Bool := ((v.bind s.first?).map (·.isTrue)).getD false

/-- How a child's path declares it; only an array's default can be undefined. -/
def embeddingOf (s : Store) (flat : Entries) (name : String) (b : ChildBinding) : Embedding :=
  { name
    isArray := b.isArray
    required := saysTrue s (Keyed.get? flat (Path.child b.path "required"))
    defaultUndefined :=
      b.isArray && ((Keyed.get? flat (Path.child b.path "default")).map (·.isNull)).getD false }

/-- What stands in the parent for a child. -/
def childValue (e : Embedding) (b : ChildBinding) : Value :=
  if b.isArray then .list [.embedded e b.schema] else .embedded e b.schema

/-- The opening of a child's block. -/
def childHeader (ws : Workspace) (parent : String) (b : ChildBinding) (name : String)
    (p : Projection) : Except CompileError String :=
  if !p.document then return Comment.leanHeader (Comment.lean parent name) name
  else if b.isArray then
    return Comment.documentHeader (Comment.subdocument parent b.path) name
      "mongoose.Types.Subdocument"
  else do
    let raw := match Keyed.get? (ws.schema b.schema).tree "_id" with
      | some .null => none
      | raw => raw
    let id ← idType ws.store p raw
    return Comment.documentHeader (Comment.document parent) name ("mongoose.Document<" ++ id ++ ">")

/-- Renders a schema under a name with a header. -/
abbrev Renderer := (name : String) → Projection → (header : String) → CompileM (List Block)

/-- Hoists one child: its path in the flat tree gets a reference, its blocks are added. `enter`
gives the renderer of a schema that does not enclose the parent. -/
def hoist (enter : SchemaId → Option Renderer) (model : String) (p : Projection)
    (flat : Entries) (blocks : List Block) (b : ChildBinding) :
    CompileM (Entries × List Block) := do
  match enter b.schema with
  | none => throw (.circular (Path.child model b.path))
  | some render =>
    let ws ← get
    let name := Naming.subdocumentName b.path model
    let ref := childValue (embeddingOf ws.store flat name b) b
    let p := { p with leanVirtuals := (ws.schema b.schema).leanVirtuals }
    let header ← childHeader ws model b name p
    return (replacePath flat b.path ref, blocks ++ (← render name p header))

def hoistAll (enter : SchemaId → Option Renderer) (model : String) (p : Projection) :
    Entries → List Block → List ChildBinding → CompileM (Entries × List Block)
  | flat, blocks, [] => return (flat, blocks)
  | flat, blocks, b :: rest => do
    let (flat, blocks) ← hoist enter model p flat blocks b
    hoistAll enter model p flat blocks rest

/-- The blocks of a schema's children and the schema's tree with references in their places. -/
def expandWith (enter : SchemaId → Option Renderer) (id : SchemaId) (model : String)
    (p : Projection) : CompileM (List Block × Entries) := do
  let schema := (← get).schema id
  let (flat, blocks) ← hoistAll enter model p (flatten schema.tree) [] schema.children
  modify (·.update id fun schema => { schema with tree := fillFrom schema.tree flat })
  return (blocks, unflatten flat)

/-! ## Blocks -/

/-- The blocks of a schema, its own last. -/
def renderWith (enter : SchemaId → Option Renderer) (id : SchemaId) (model : String) (p : Projection)
    (header footer : String) : CompileM (List Block) := do
  let schema := (← get).schema id
  let (blocks, tree) ←
    if !schema.children.isEmpty && model != "" then expandWith enter id model p
    else pure ([], schema.tree)
  let body ← bodyText (← get).store p tree
  return blocks ++ [⟨model, header ++ body ++ footer⟩]

/-- Renders a schema and its children at any depth. `outside` holds the schemas that do not enclose
it; only they are rendered as its children. -/
def renderWithin (outside : List SchemaId) (id : SchemaId) (model : String) (p : Projection)
    (header footer : String) : CompileM (List Block) :=
  renderWith
    (fun child =>
      if child ∈ outside then
        some fun name p header =>
          renderWithin (outside.erase child) child name p header Comment.blockFooter
      else none)
    id model p header footer
termination_by outside.length
decreasing_by exact length_erase_lt ‹child ∈ outside›

/-- Renders a schema that some do not enclose, if it is one of them. -/
def entering (outside : List SchemaId) (child : SchemaId) : Option Renderer :=
  if child ∈ outside then
    some fun name p header =>
      renderWithin (outside.erase child) child name p header Comment.blockFooter
  else none

/-- The schemas that are not part of a lineage. -/
def outsideOf (ws : Workspace) (lineage : List SchemaId) : List SchemaId :=
  ws.ids.filter fun id => !lineage.contains id

/-- Hoists the children of a schema that the schemas of `ancestry` enclose. -/
def expand (id : SchemaId) (model : String) (p : Projection) (ancestry : List SchemaId := []) :
    CompileM (List Block × Entries) := do
  expandWith (entering (outsideOf (← get) (id :: ancestry))) id model p

/-- The blocks of a schema and of its children at any depth. -/
def renderBlocks (id : SchemaId) (model : String) (p : Projection) (header : String := "")
    (footer : String := "") : CompileM (List Block) := do
  renderWithin (outsideOf (← get) [id]) id model p header footer

/-- The text of all blocks of a schema. -/
def renderText (id : SchemaId) (model : String) (p : Projection) (header : String := "")
    (footer : String := "") : CompileM String := do
  return String.join ((← renderBlocks id model p header footer).map (·.text))

end Compile
end ModelTypes
