import ModelTypes.Field.Basic
import ModelTypes.Line
/-!
The type text of a field in a projection. Virtuals are left out of lean types unless the
projection keeps them.
-/

namespace ModelTypes

/-- Why a described field has no type text. -/
inductive RenderError where
  | unknownShape (value : Value)
  | literal (e : LiteralError)

/-- Puts map and array around a type in the order the field asks for. -/
def FieldOf.wrap {σ : Type} (field : FieldOf σ) (document : Bool) (type : String) : String :=
  let type := if field.isMap && !field.mapOfArray then Line.wrapMap type document else type
  let type :=
    if field.isArray then Line.wrapArray type document field.isSubdocumentArray else type
  if field.isMap && field.mapOfArray then Line.wrapMap type document else type

namespace Render

def primitive (p : Projection) : PrimitiveKind → String
  | .string => "string"
  | .number => "number"
  | .boolean => "boolean"
  | .date => "Date"
  | .buffer => if p.document then "mongoose.Types.Buffer" else "Buffer"
  | .decimal128 => if p.document then "mongoose.Types.Decimal128" else "number"
  | .objectId => if p.plainIds then "string" else "mongoose.Types.ObjectId"
  | .mixed => "any"

/-- Only texts and numbers are narrowed to their enumerated values. -/
def scalar (s : Store) (p : Projection) (kind : PrimitiveKind) (enum : Option (List Value)) :
    Except RenderError String :=
  match kind, enum with
  | .string, some (v :: vs) | .number, some (v :: vs) =>
    (Line.enumUnion s (v :: vs)).mapError .literal
  | _, _ => .ok (primitive p kind)

/-- A reference is the other model's identifier or the model itself. -/
def reference (p : Projection) (model : String) (idKind : Option PrimitiveKind) : String :=
  let idOf (target : String) : String := target ++ "[\"_id\"] | " ++ target
  if p.document then idOf (model ++ "Document")
  else match p.plainIds, idKind with
    | true, some kind => primitive p kind ++ " | " ++ model
    | _, _ => idOf model

mutual

def shape (s : Store) (p : Projection) : Shape → Except RenderError String
  | .scalar kind enum => scalar s p kind enum
  | .nested fields => do return "\x7b\n" ++ (← lines s p fields) ++ "\x7d"
  | .reference model idKind => .ok (reference p model idKind)
  | .embedded name _ => .ok (name ++ if p.document then "Document" else "")
  | .virtual => .ok "any"
  | .unknown value => .error (.unknownShape value)

/-- The type of a field, unless the projection leaves the field out. -/
def type? (s : Store) (p : Projection) : FieldOf Shape → Except RenderError (Option String)
  | ⟨key, .virtual, o, a, m, ma, sa⟩ =>
    .ok (if p.document || p.leanVirtuals then
      some (FieldOf.wrap ⟨key, (), o, a, m, ma, sa⟩ p.document "any") else none)
  | ⟨key, sh, o, a, m, ma, sa⟩ => do
    return some (FieldOf.wrap ⟨key, (), o, a, m, ma, sa⟩ p.document (← shape s p sh))

/-- The declaration lines of fields, those left out being empty. -/
def lines (s : Store) (p : Projection) : List (FieldOf Shape) → Except RenderError String
  | [] => .ok ""
  | field :: rest => do
    let line := match ← type? s p field with
      | some type => Line.entry field.key type field.optional
      | none => ""
    return line ++ (← lines s p rest)

end

/-- The declaration line of a field, empty if the projection leaves it out. -/
def line (s : Store) (p : Projection) (field : Field) : Except RenderError String := do
  match ← type? s p field with
  | some type => return Line.entry field.key type field.optional
  | none => return ""

end Render
end ModelTypes
