import ModelTypes.Field.Render
import ModelTypes.Proofs.Field.Grammar
/-!
# The types that fields describe

What a described field means as a type, apart from how it is written: the type of its shape, with
the map and the array around it in the order the field asks for.
-/

namespace ModelTypes

/-- The literal that a value is as a type. -/
def Value.literalTerm? : Value → Option TypeTerm
  | .null => some .null
  | .int n => some (.int n)
  | .str t => some (.text t)
  | .kind k => some (.text k.name)
  | _ => none

/-- A capital letter and word characters. -/
def isTypeName (name : String) : Bool :=
  match name.toList with
  | c :: cs => c.isUpper && cs.all Line.isWordChar
  | [] => false

mutual

/-- All literals are texts, whole numbers or nothing, names are those of types, keys are not empty,
and there is a shape. -/
def Shape.isSpelled (s : Store) : Shape → Bool
  | .scalar _ enum =>
    enum.all fun values => values.all fun v => (Line.enumValue s v).literalTerm?.isSome
  | .nested fields => areSpelled s fields
  | .reference model _ => isTypeName model
  | .embedded name _ => isTypeName name
  | .virtual => true
  | .unknown _ => false

def FieldOf.isSpelled (s : Store) : FieldOf Shape → Bool
  | ⟨_, sh, _, _, _, _, _⟩ => sh.isSpelled s

def areSpelled (s : Store) : List (FieldOf Shape) → Bool
  | [] => true
  | field :: rest => field.key != "" && field.isSpelled s && areSpelled s rest

end

def Shape.isVirtual : Shape → Bool
  | .virtual => true
  | _ => false

namespace Render

def primitiveParts (p : Projection) : PrimitiveKind → List String
  | .string => ["string"]
  | .number => ["number"]
  | .boolean => ["boolean"]
  | .date => ["Date"]
  | .buffer => if p.document then ["mongoose", "Types", "Buffer"] else ["Buffer"]
  | .decimal128 => if p.document then ["mongoose", "Types", "Decimal128"] else ["number"]
  | .objectId => if p.plainIds then ["string"] else ["mongoose", "Types", "ObjectId"]
  | .mixed => ["any"]

/-- The literals of an enumeration, nothing standing last, once. -/
def enumTerms (s : Store) (values : List Value) : List TypeTerm :=
  let values := values.map (Line.enumValue s)
  (values.filter (!·.isNull)).filterMap Value.literalTerm? ++
    if values.any (·.isNull) then [.null] else []

def scalarTerm (s : Store) (p : Projection) (kind : PrimitiveKind) (enum : Option (List Value)) :
    TypeTerm :=
  match enum with
  | some (v :: vs) =>
    if kind = .string ∨ kind = .number then .join (enumTerms s (v :: vs))
    else .name (primitiveParts p kind)
  | _ => .name (primitiveParts p kind)

/-- The other model's identifier, or the model itself. -/
def referenceTerm (p : Projection) (model : String) (idKind : Option PrimitiveKind) : TypeTerm :=
  let target := if p.document then model ++ "Document" else model
  match idKind with
  | some kind =>
    if !p.document && p.plainIds then .union [.name (primitiveParts p kind), .name [target]]
    else .union [.idOf [target], .name [target]]
  | none => .union [.idOf [target], .name [target]]

def mapTerm (document : Bool) (type : TypeTerm) : TypeTerm :=
  if document then .apply ["mongoose", "Types", "Map"] [type]
  else .apply ["Map"] [.name ["string"], type]

def arrayTerm (document subdocument : Bool) (type : TypeTerm) : TypeTerm :=
  if document then
    .apply ["mongoose", "Types", if subdocument then "DocumentArray" else "Array"] [type]
  else .array type

/-- The map stands around the array if the field says so, else the array around the map. -/
def wrapTerm {σ : Type} (field : FieldOf σ) (document : Bool) (type : TypeTerm) : TypeTerm :=
  let map (type : TypeTerm) := if field.isMap then mapTerm document type else type
  let array (type : TypeTerm) :=
    if field.isArray then arrayTerm document field.isSubdocumentArray type else type
  if field.mapOfArray then map (array type) else array (map type)

mutual

def shapeTerm (s : Store) (p : Projection) : Shape → TypeTerm
  | .scalar kind enum => scalarTerm s p kind enum
  | .nested fields => .body (fieldTerms s p fields)
  | .reference model idKind => referenceTerm p model idKind
  | .embedded name _ => .name [name ++ if p.document then "Document" else ""]
  | .virtual | .unknown _ => .name ["any"]

/-- What the type of a field is, unless the field is left out. -/
def fieldTerm? (s : Store) (p : Projection) : FieldOf Shape → Option TypeTerm
  | ⟨key, sh, o, a, m, ma, sa⟩ =>
    if sh.isVirtual && !(p.document || p.leanVirtuals) then none
    else some (wrapTerm ⟨key, (), o, a, m, ma, sa⟩ p.document (shapeTerm s p sh))

def fieldTerms (s : Store) (p : Projection) :
    List (FieldOf Shape) → List (String × Bool × TypeTerm)
  | [] => []
  | field :: rest =>
    match fieldTerm? s p field with
    | some type => (field.key, field.optional, type) :: fieldTerms s p rest
    | none => fieldTerms s p rest

end

end Render

end ModelTypes
