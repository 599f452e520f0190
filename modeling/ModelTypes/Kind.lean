import ModelTypes.Text.Case
/-!
The closed taxonomy of field types: kinds of stored values, kinds that describe structure, and the
type markers by which a definition may name either.
-/

namespace ModelTypes

/-- What a field stores. -/
inductive PrimitiveKind where
  | string | number | boolean | date | buffer | objectId | decimal128 | mixed
deriving DecidableEq, Repr

/-- What a field is built like. -/
inductive ContainerKind where
  | map | array | object
deriving DecidableEq, Repr

inductive Kind where
  | primitive (k : PrimitiveKind)
  | container (k : ContainerKind)
deriving DecidableEq, Repr

/-! ## Names -/

def PrimitiveKind.name : PrimitiveKind → String
  | .string => "String"
  | .number => "Number"
  | .boolean => "Boolean"
  | .date => "Date"
  | .buffer => "Buffer"
  | .objectId => "ObjectId"
  | .decimal128 => "Decimal128"
  | .mixed => "Mixed"

def ContainerKind.name : ContainerKind → String
  | .map => "Map"
  | .array => "Array"
  | .object => "Object"

namespace Kind

def name : Kind → String
  | .primitive k => k.name
  | .container k => k.name

def all : List Kind :=
  [.primitive .string, .primitive .number, .primitive .boolean, .primitive .date,
   .primitive .buffer, .primitive .objectId, .primitive .decimal128, .primitive .mixed,
   .container .map, .container .array, .container .object]

theorem mem_all (k : Kind) : k ∈ all := by
  rcases k with k | k <;> cases k <;> simp [all]

/-- Names are read in any letter case. -/
def ofName? (s : String) : Option Kind :=
  let key := Text.lowerString s
  all.find? fun k => Text.lowerString k.name == key

end Kind

/-! ## Type markers -/

/-- The type objects a definition may mention. `declared k` is the marker class of a kind; `base`
and `family` are the class above those markers and the namespace that holds them. -/
inductive TypeMarker where
  | str | int | float | bool | bytes | bytearray | dict | list | object
  | datetime | date | decimal | bsonObjectId | bsonDecimal128 | bsonBinary
  | declared (k : Kind)
  | base | family
  | tuple | set | complex | noneType | time
deriving DecidableEq, Repr

/-- The kind a type marker stands for; the last seven stand for none. -/
def TypeMarker.kind? : TypeMarker → Option Kind
  | .str => some (.primitive .string)
  | .int | .float => some (.primitive .number)
  | .bool => some (.primitive .boolean)
  | .datetime | .date => some (.primitive .date)
  | .bytes | .bytearray | .bsonBinary => some (.primitive .buffer)
  | .decimal | .bsonDecimal128 => some (.primitive .decimal128)
  | .bsonObjectId => some (.primitive .objectId)
  | .dict | .object => some (.container .object)
  | .list => some (.container .array)
  | .declared k => some k
  | .base | .family | .tuple | .set | .complex | .noneType | .time => none

/-- The full name of the type. -/
def TypeMarker.qualifiedName : TypeMarker → String
  | .str => "str"
  | .int => "int"
  | .float => "float"
  | .bool => "bool"
  | .bytes => "bytes"
  | .bytearray => "bytearray"
  | .dict => "dict"
  | .list => "list"
  | .object => "object"
  | .datetime => "datetime.datetime"
  | .date => "datetime.date"
  | .decimal => "decimal.Decimal"
  | .bsonObjectId => "bson.objectid.ObjectId"
  | .bsonDecimal128 => "bson.decimal128.Decimal128"
  | .bsonBinary => "bson.binary.Binary"
  | .declared k => "schematsgen.core.models.schema.Types." ++ k.name
  | .base => "schematsgen.core.models.schema._TypeMarker"
  | .family => "schematsgen.core.models.schema.Types"
  | .tuple => "tuple"
  | .set => "set"
  | .complex => "complex"
  | .noneType => "NoneType"
  | .time => "datetime.time"

end ModelTypes
