import ModelTypes.Field.Basic
import ModelTypes.Naming
import ModelTypes.Value.Enumeration
/-!
Reading a field's definition. `describe` turns a definition, in any of its encodings, into a
`Field`, or into nothing for fields that are never declared. Nested mappings are read to a fixed
depth, so a definition that contains itself is refused.
-/

namespace ModelTypes

/-- Why a field cannot be described. -/
inductive FieldError where
  | unsupported (key : String) (value : Value)
  | tooDeep (key : String)

namespace Field

/-- Bookkeeping attributes and the default version key; never declared. -/
def internalKeys : List String :=
  ["get", "set", "schemaName", "defaultOptions", "_checkRequired", "_cast", "checkRequired",
   "cast", "__v"]

def maxNestingDepth : Nat := 64

variable (s : Store)

/-! ## Flags of a definition -/

/-- Required is only what says `true`, itself or as the first of several. -/
def isRequired (raw : Value) : Bool :=
  match s.embedding? raw with
  | some e => e.required
  | none => (((s.get? raw "required").bind s.first?).map (·.isTrue)).getD false

/-- Whether the default is explicitly nothing. -/
def isDefaultUndefined (raw : Value) : Bool :=
  match s.embedding? raw with
  | some e => e.defaultUndefined
  | none => ((s.get? raw "default").map (·.isNull)).getD false

/-- A virtual has a path, getters and setters, and no type. -/
def isVirtual (raw : Value) : Bool :=
  let parts := ["path", "getters", "setters"]
  match s.entries? raw with
  | some entries => !Keyed.has entries "type" && parts.all (Keyed.has entries)
  | none => parts.all fun part => (s.attribute? raw part).isSome

/-- The items of a list that stands as a mapping's type. -/
def typeItems? (v : Value) : Option (List Value) := (s.get? v "type").bind s.items?

/-- The kind a mapping's type names. -/
def typeKind? (v : Value) : Option Kind := (s.get? v "type").bind (·.kind?)

def isArrayMarker (v : Value) : Bool := typeKind? s v == some (.container .array)

def isMapMarker (v : Value) : Bool := typeKind? s v == some (.container .map)

/-! ## Array encodings -/

/-- A definition with its outer array taken off. -/
structure Element where
  value : Value
  isArray : Bool
  optional : Bool

/-- Takes the outer array off: `[x]` and `type: [x]`. Nothing is left of an empty list, of
which only its being optional is kept. -/
def element (raw : Value) : Except Bool Element :=
  match s.items? raw with
  | some [] => .error false
  | some (first :: _) =>
    .ok ⟨first, true, ((s.embedding? first).map (·.defaultUndefined)).getD false⟩
  | none =>
    match s.entries? raw, typeItems? s raw with
    | some _, some [] => .error (isDefaultUndefined s raw)
    | some entries, some (inner :: _) =>
      let options := Keyed.remove entries "type"
      match s.get? inner "type" with
      | some type =>
        -- validation of the elements; it implies that the array is required
        let typed := Keyed.put options "type" type
        let value := match s.get? inner "ref" with
          | some ref => if s.truthy ref then Keyed.put typed "ref" ref else typed
          | none => typed
        .ok ⟨.dict value, true, false⟩
      | none =>
        let geo := match s.get? raw "index" with
          | some index => index.text? == some "2dsphere"
          | none => false
        .ok ⟨.dict (Keyed.put options "type" inner), true, geo || isDefaultUndefined s raw⟩
    | _, _ => .ok ⟨raw, false, !isRequired s raw⟩

/-! ## Maps -/

def mixedType : Value := .kind (.primitive .mixed)

/-- The definition of a map's values, and whether they are arrays. -/
def mapValue (key : String) (element : Value) : Except FieldError (Value × Bool) := do
  let of := (s.get? element "of").getD .null
  let (of, ofArray) := match s.items? of with
    | some items => (items.head?.getD .null, true)
    | none => (of, false)
  let value : Entries ← match of, s.entries? of with
    | .null, _ => pure [("type", mixedType)]
    | _, some [] => pure [("type", mixedType)]
    | _, some entries =>
      if Keyed.has entries "type" then pure entries else pure [("type", of)]
    | _, none => if of.kind?.isSome then pure [("type", of)] else throw (.unsupported key of)
  let (value, ofArray) ← match typeItems? s (.dict value) with
    | some items =>
      if ofArray then throw (.unsupported key of)
      else pure (Keyed.put value "type" (items.head?.getD mixedType), true)
    | none => pure (value, ofArray)
  let (value, ofArray) :=
    if isArrayMarker s (.dict value) then (Keyed.put value "type" mixedType, true)
    else (value, ofArray)
  let inherit (value : Entries) (option : String) : Entries :=
    match s.get? element option with
    | some v => if Keyed.has value option then value else Keyed.put value option v
    | none => value
  return (.dict (inherit (inherit value "enum") "ref"), ofArray)

/-! ## Shapes -/

/-- The name of the model that a reference points to; a dotted name points to a subdocument. -/
def referenceName (key : String) (ref : Value) : Except FieldError String :=
  match ((s.attribute? ref "model_name").getD ref).text? with
  | none => .error (.unsupported key ref)
  | some name =>
    let chars := name.toList
    let plain := chars.takeWhile (· != '\'') ++ (chars.dropWhile (· != '\'')).drop 1
    .ok (if plain.contains '.' then Naming.subdocumentName (String.ofList plain) ""
      else String.ofList plain)

def idKind? (v : Value) : Option PrimitiveKind :=
  match typeKind? s v with
  | some (.primitive k) => some k
  | _ => none

/-- The values that an `enum` option declares, in any of its encodings. -/
def enumValues (key : String) (declared : Value) : Except FieldError (Option (List Value)) :=
  match declared with
  | .null => .ok none
  | _ =>
    match s.enumeration? declared, s.sequence? declared, s.entries? declared with
    | some (_, members), _, _ => .ok (some (Keyed.values members))
    | none, some items, _ => .ok (some items)
    | none, none, some entries =>
      .ok (some (((Keyed.get? entries "values").bind s.sequence?).getD (Keyed.values entries)))
    | none, none, none =>
      match (s.attribute? declared "values").bind s.sequence? with
      | some items => .ok (some items)
      | none => .error (.unsupported key declared)

/-- The shape of a definition that is no array, map, reference or hoisted child; `nested` reads
the fields of a mapping. -/
def shapeOf (nested : Entries → Except FieldError (List Field)) (key : String) (value : Value) :
    Except FieldError Shape := do
  match s.entries? value with
  | none => throw (.unsupported key value)
  | some [] => return .mixed
  | some entries =>
    match Keyed.get? entries "type" with
    | none => return .nested (← nested entries)
    | some type =>
      match s.entries? type with
      | some [] => return .mixed
      | some inner => return .nested (← nested inner)
      | none =>
        match type.kind? with
        | none | some (.container .map) | some (.container .array) =>
          throw (.unsupported key type)
        | some (.container .object) => return .mixed
        | some (.primitive kind) =>
          if kind = .string || kind = .number then
            return .scalar kind (← enumValues s key ((Keyed.get? entries "enum").getD .null))
          else return .scalar kind none

/-- A field whose outer array, if any, is taken off already. -/
def describeElement (nested : Entries → Except FieldError (List Field)) (key : String)
    (raw : Value) (el : Element) : Except FieldError Field := do
  if (s.items? el.value).isSome || (typeItems? s el.value).isSome then
    throw (.unsupported key raw)
  let value := if el.value.kind?.isSome then .dict [("type", el.value)] else el.value
  if isArrayMarker s value then
    return { key, shape := .mixed, isArray := true,
             optional := if el.isArray then el.optional else isDefaultUndefined s value }
  let isMap := isMapMarker s value
  let (value, mapOfArray) ← if isMap then mapValue s key value else pure (value, false)
  let isArray := el.isArray || mapOfArray
  match s.embedding? value with
  | some e =>
    return { key, shape := .embedded e.name e.isArray, optional := el.optional, isArray, isMap,
             mapOfArray, isSubdocumentArray := isArray && e.isArray }
  | none =>
    let ref := (s.get? value "ref").getD .null
    if s.truthy ref then
      let model ← referenceName s key ref
      return { key, shape := .reference model (idKind? s value), optional := el.optional,
               isArray, isMap, mapOfArray }
    else
      let shape ← shapeOf s nested key value
      return { key, shape, isArray, isMap, mapOfArray,
               optional := el.optional && !shape.isNested && key != "_id" }

/-! ## Fields -/

/-- Reads the definition of a field above which `room` more levels of fields may stand, itself
included. -/
def describeWithin (room : Nat) (key : String) (raw : Value) : Except FieldError (Option Field) :=
  match room with
  | 0 => .error (.tooDeep key)
  | room + 1 =>
    if internalKeys.contains key then .ok none
    else if isVirtual s raw then
      .ok (if key = "id" then none else some { key, shape := .virtual, optional := false })
    else
      match element s raw with
      | .error optional => .ok (some { key, shape := .mixed, optional, isArray := true })
      | .ok el =>
        some <$> describeElement s
          (fun fields => fields.filterMapM fun f => describeWithin room f.1 f.2) key raw el

/-- Reads the definition of a field that stands below `depth` mappings. -/
def describe (key : String) (raw : Value) (depth : Int := 0) : Except FieldError (Option Field) :=
  describeWithin s (maxNestingDepth + 1 - depth).toNat key raw

end Field
end ModelTypes
