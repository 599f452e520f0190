import ModelTypes.Value.Basic
/-!
A field after its definition was read: its shape, whether it may be absent, and how its type is
wrapped.
-/

namespace ModelTypes

/-- A field whose type has shape `σ`. `mapOfArray` says that the map stands around the array. -/
structure FieldOf (σ : Type) where
  key : String
  shape : σ
  optional : Bool := true
  isArray : Bool := false
  isMap : Bool := false
  mapOfArray : Bool := false
  isSubdocumentArray : Bool := false

/-- `unknown` holds a value that is no shape. -/
inductive Shape where
  | scalar (kind : PrimitiveKind) (enum : Option (List Value))
  | nested (fields : List (FieldOf Shape))
  | reference (model : String) (idKind : Option PrimitiveKind)
  | embedded (name : String) (isArray : Bool)
  | virtual
  | unknown (value : Value)

abbrev Field := FieldOf Shape

def Shape.mixed : Shape := .scalar .mixed none

def Shape.isNested : Shape → Bool
  | .nested _ => true
  | _ => false

/-- What a declaration is written for: the document type or the lean type, with or without the
wrapper types of identifiers, and whether lean types keep virtuals. -/
structure Projection where
  document : Bool
  plainIds : Bool := false
  leanVirtuals : Bool := false
deriving DecidableEq, Repr

end ModelTypes
