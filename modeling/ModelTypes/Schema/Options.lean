import ModelTypes.Value.Basic
/-!
Schema options and how they are read from a mapping. Flags may be written as booleans, as the
numbers 0 and 1, or as one of a few words.
-/

namespace ModelTypes

/-- The version key's name, or whether there is one. -/
inductive VersionKey where
  | named (key : String)
  | enabled (on : Bool)
deriving DecidableEq, Repr

/-- How documents become plain objects. -/
structure ObjectOptions where
  virtuals : Option Bool := none
  getters : Option Bool := none
deriving DecidableEq, Repr

/-- `objectId` adds the identifier field, `id` its virtual. -/
structure Options where
  objectId : Bool := true
  id : Bool := true
  versionKey : VersionKey := .named "__v"
  toObject : ObjectOptions := {}
deriving DecidableEq, Repr

/-- Whether plain objects carry virtuals: not if neither option is on, nor if virtuals are
expressly off while getters are on. -/
def ObjectOptions.includesVirtuals (o : ObjectOptions) : Bool :=
  let virtuals := o.virtuals.getD false
  let getters := o.getters.getD false
  (virtuals || getters) && !(o.virtuals == some false && getters)

namespace Options

/-! ## Reading -/

def trueWords : List String := ["1", "on", "t", "true", "y", "yes"]

def falseWords : List String := ["0", "off", "f", "false", "n", "no"]

def wordFlag? (word : String) : Option Bool :=
  let word := word.toLower
  if trueWords.contains word then some true
  else if falseWords.contains word then some false else none

def numberFlag? (n : Int) : Option Bool :=
  if n = 0 then some false else if n = 1 then some true else none

def bytesText? (data : List UInt8) : Option String := String.fromUTF8? ⟨data.toArray⟩

/-- A flag in any of its spellings. -/
def flag? : Value → Option Bool
  | .bool b => some b
  | .int n => numberFlag? n
  | .float d => d.toInt?.bind numberFlag?
  | .bytes data => (bytesText? data).bind wordFlag?
  | v => v.text?.bind wordFlag?

def versionKey? : Value → Option VersionKey
  | .bytes data => .named <$> bytesText? data
  | v =>
    match v.text? with
    | some key => some (.named key)
    | none => .enabled <$> flag? v

/-- A flag that may be left undecided. -/
def optionalFlag? : Value → Option (Option Bool)
  | .null => some none
  | v => some <$> flag? v

/-- An option under its name, or its default. -/
def read? {α : Type} (entries : Entries) (name : String) (default : α)
    (reader : Value → Option α) : Option α :=
  match Keyed.get? entries name with
  | some v => reader v
  | none => some default

def objectOptions? (s : Store) (v : Value) : Option ObjectOptions := do
  let entries ← s.entries? v
  return { virtuals := ← read? entries "virtuals" none optionalFlag?
           getters := ← read? entries "getters" none optionalFlag? }

/-- The options that a mapping gives; of the two names of the identifier's flag `_id` wins. -/
def ofEntries? (s : Store) (entries : Entries) : Option Options := do
  let idName := if Keyed.has entries "_id" then "_id" else "id_"
  return { objectId := ← read? entries idName true flag?
           id := ← read? entries "id" true flag?
           versionKey := ← read? entries "version_key" (.named "__v") versionKey?
           toObject := ← read? entries "to_object" {} (objectOptions? s) }

end Options
end ModelTypes
