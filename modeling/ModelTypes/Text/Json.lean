import ModelTypes.Text.Literal
/-!
Reports as JSON: two blanks for each level, everything beyond printable ASCII escaped.
-/

namespace ModelTypes

inductive JsonValue where
  | bool (b : Bool)
  | str (s : String)
  | list (items : List JsonValue)
  | object (fields : List (String × JsonValue))

namespace JsonValue

def indentation (level : Nat) : String := String.ofList (List.replicate (2 * level) ' ')

/-- Lines between brackets; brackets with nothing between them stand on one line. -/
def bracketed (opening closing : String) (level : Nat) (lines : List String) : String :=
  if lines.isEmpty then opening ++ closing
  else
    opening ++ "\n"
      ++ ",\n".intercalate (lines.map fun line => indentation (level + 1) ++ line)
      ++ "\n" ++ indentation level ++ closing

mutual

def render (level : Nat) : JsonValue → String
  | .bool b => if b then "true" else "false"
  | .str s => Text.quoteAscii s
  | .list items => bracketed "[" "]" level (renderItems (level + 1) items)
  | .object fields => bracketed "\x7b" "\x7d" level (renderFields (level + 1) fields)

def renderItems (level : Nat) : List JsonValue → List String
  | [] => []
  | j :: rest => render level j :: renderItems level rest

def renderFields (level : Nat) : List (String × JsonValue) → List String
  | [] => []
  | (name, j) :: rest =>
    (Text.quoteAscii name ++ ": " ++ render level j) :: renderFields level rest

end

end JsonValue
end ModelTypes
