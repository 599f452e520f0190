import ModelTypes.Schema.Basic
/-!
Child schemas in a tree: where they stand, and the arrays of plain objects that become schemas of
their own.
-/

namespace ModelTypes

/-! ## Finding children -/

/-- The child that stands as a field's type, alone or as the only item of a list. -/
def childAt? (path : String) : Value → Option ChildBinding
  | .schema id => some ⟨path, id, false⟩
  | .list [.schema id] => some ⟨path, id, true⟩
  | _ => none

mutual

/-- The children in a value that stands at `path`. A mapping with a type is one field; other
mappings are looked through. -/
def Value.childrenAt (path : String) : Value → List ChildBinding
  | .dict entries =>
    match Keyed.get? entries "type" with
    | some type => (childAt? path type).toList
    | none => childrenUnder (path ++ ".") entries
  | v => (childAt? path v).toList

def childrenUnder (lead : String) : List (String × Value) → List ChildBinding
  | [] => []
  | (key, v) :: rest => v.childrenAt (lead ++ key) ++ childrenUnder lead rest

end

/-- The children of a tree, in order. -/
def childrenOf (tree : Entries) : List ChildBinding := childrenUnder "" tree

/-! ## Schemas made from a tree -/

/-- A virtual of a schema as a value of its tree. -/
def virtualValue (owner : SchemaId) (path : String) : Value := .virtual path (some owner)

/-- Adds what every schema has unless its definition or options say otherwise: the identifier,
its virtual and the version key. -/
def Schema.withAutomaticPaths (id : SchemaId) (schema : Schema) : Schema :=
  let tree := schema.tree
  let tree :=
    if schema.options.objectId && !Keyed.has tree "_id" then
      Keyed.put tree "_id"
        (.dict [("type", .marker (.declared (.primitive .objectId))), ("auto", .bool true)])
    else tree
  let addsVirtual := schema.options.id && !Keyed.has tree "id"
  let tree := if addsVirtual then Keyed.put tree "id" (virtualValue id "id") else tree
  let tree := match schema.options.versionKey with
    | .named key =>
      if key != "" && !Keyed.has tree key then
        Keyed.put tree key (.marker (.declared (.primitive .number)))
      else tree
    | .enabled _ => tree
  { schema with
    tree
    virtuals := if addsVirtual then Keyed.put schema.virtuals "id" ⟨1, 0⟩ else schema.virtuals }

/-- Adds a schema whose fields are `tree`. -/
def makeSchema (options : Options) (functions : Functions) (tree : Entries) :
    StateM (List Schema) SchemaId := do
  let id := (← get).length
  let schema : Schema := { options, functions, tree, children := childrenOf tree }
  modify (· ++ [schema.withAutomaticPaths id])
  return id

/-- A mapping that declares several fields rather than the type of one. -/
def isPlainObject (entries : Entries) : Bool := !entries.isEmpty && !Keyed.has entries "type"

mutual

/-- Turns the arrays of plain objects in a tree into arrays of schemas. -/
def implicitFields : List (String × Value) → StateM (List Schema) (List (String × Value))
  | [] => return []
  | (key, v) :: rest => do
    let v ← implicitField v
    return (key, v) :: (← implicitFields rest)

def implicitField : Value → StateM (List Schema) Value
  | .list items => do return .list (← implicitItems items)
  | .dict entries =>
    if Keyed.has entries "type" then do return .dict (← implicitType entries)
    else do return .dict (← implicitFields entries)
  | v => return v

/-- Only a list of a single item declares an array of that item. -/
def implicitItems : List Value → StateM (List Schema) (List Value)
  | [item] => do return [← implicitItem item]
  | items => return items

def implicitItem : Value → StateM (List Schema) Value
  | .dict entries =>
    if isPlainObject entries then do
      let tree ← implicitFields entries
      return .schema (← makeSchema {} {} tree)
    else return .dict entries
  | v => return v

/-- The same for the type of a field. -/
def implicitType : List (String × Value) → StateM (List Schema) (List (String × Value))
  | [] => return []
  | (key, v) :: rest =>
    if key = "type" then do
      let v ← implicitArray v
      return (key, v) :: rest
    else do return (key, v) :: (← implicitType rest)

def implicitArray : Value → StateM (List Schema) Value
  | .list items => do return .list (← implicitItems items)
  | v => return v

end

end ModelTypes
