import ModelTypes.Text.Display
import ModelTypes.Value.Outline
/-!
Values as error messages show them.
-/

namespace ModelTypes

def displayNumbers : Double.Spelling := ⟨"nan", "inf"⟩

def displayBool (b : Bool) : String := if b then "True" else "False"

/-- The name of a kind as a constant of its class. -/
def Kind.constant : Kind → String
  | .primitive .objectId => "PrimitiveKind.OBJECT_ID"
  | .primitive k => "PrimitiveKind." ++ Text.upperString k.name
  | .container k => "ContainerKind." ++ Text.upperString k.name

def Kind.display (k : Kind) : String :=
  "<" ++ k.constant ++ ": " ++ Text.display k.name ++ ">"

def displayList (items : List String) : String := "[" ++ ", ".intercalate items ++ "]"

def displayTuple (items : List String) : String :=
  match items with
  | [item] => "(" ++ item ++ ",)"
  | items => "(" ++ ", ".intercalate items ++ ")"

def displaySchema (paths : List String) : String :=
  "Schema(paths=" ++ displayList (paths.map Text.display) ++ ")"

/-- A value without parts; `paths` gives the top-level keys of a schema. -/
def Value.displayLeaf (paths : SchemaId → List String) : Value → String
  | .null => "None"
  | .bool b => displayBool b
  | .int n => toString n
  | .float d => d.text displayNumbers
  | .str s => Text.display s
  | .kind k => k.display
  | .bytes data => Text.displayBytes data
  | .marker m => "<class " ++ Text.display m.qualifiedName ++ ">"
  | .function => "<built-in function len>"
  | .virtual path _ => "VirtualType(" ++ Text.display path ++ ")"
  | .schema id => displaySchema (paths id)
  | .member .. | .shared _ | .list _ | .dict _ | .embedded .. => "..."

def Enclosure.display : Enclosure → String
  | .list => "[...]"
  | .dict => "\x7b...\x7d"
  | .tuple => "(...)"
  | .object => "namespace(...)"
  | .record => "..."

mutual

def Outline.display (paths : SchemaId → List String) : Outline → String
  | .leaf v => v.displayLeaf paths
  | .list items => displayList (displayItems paths items)
  | .dict entries =>
    "\x7b" ++ ", ".intercalate (displayEntries paths (fun k => Text.display k ++ ": ") entries)
      ++ "\x7d"
  | .tuple items => displayTuple (displayItems paths items)
  | .object attributes =>
    "namespace(" ++ ", ".intercalate (displayEntries paths (· ++ "=") attributes) ++ ")"
  | .model name schema =>
    "Model(model_name=" ++ name.display paths ++ ", schema=" ++ schema.display paths ++ ")"
  | .embedded e schema =>
    "ChildSchemaRef(name=" ++ Text.display e.name ++ ", schema=" ++ schema.display paths
      ++ ", is_array=" ++ displayBool e.isArray ++ ", required=" ++ displayBool e.required
      ++ ", default_undefined=" ++ displayBool e.defaultUndefined ++ ")"
  | .enumeration name => "<enum " ++ Text.display name ++ ">"
  | .member enumeration name value =>
    "<" ++ enumeration ++ "." ++ name ++ ": " ++ value.display paths ++ ">"
  | .again e => e.display

def displayItems (paths : SchemaId → List String) : List Outline → List String
  | [] => []
  | item :: rest => item.display paths :: displayItems paths rest

def displayEntries (paths : SchemaId → List String) (key : String → String) :
    List (String × Outline) → List String
  | [] => []
  | (k, v) :: rest => (key k ++ v.display paths) :: displayEntries paths key rest

end

/-- The text of a value: a text is its own, constants are named, all else is displayed. -/
def Store.plainText (s : Store) (paths : SchemaId → List String) (v : Value) : String :=
  match v, s.member? v with
  | .str text, _ => text
  | .kind k, _ => k.constant
  | _, some (enumeration, name, _) => enumeration ++ "." ++ name
  | v, none => (s.outline v).display paths

def Store.display (s : Store) (paths : SchemaId → List String) (v : Value) : String :=
  (s.outline v).display paths

end ModelTypes
