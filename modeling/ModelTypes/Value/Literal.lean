import ModelTypes.Text.Literal
import ModelTypes.Value.Outline
/-!
Values as literals: text, numbers, booleans, nothing, and lists, tuples and mappings of them. Other
values have no literal, and neither has a container that stands inside itself.
-/

namespace ModelTypes

/-- Why a value has no literal. -/
inductive LiteralError where
  | noLiteral
  | containsItself
deriving DecidableEq, Repr

def literalNumbers : Double.Spelling := ⟨"NaN", "Infinity"⟩

def Value.leafLiteral : Value → Except LiteralError String
  | .null => .ok "null"
  | .bool b => .ok (if b then "true" else "false")
  | .int n => .ok (toString n)
  | .float d => .ok (d.text literalNumbers)
  | .str s => .ok (Text.quote s)
  | .kind k => .ok (Text.quote k.name)
  | _ => .error .noLiteral

def listLiteral (items : List String) : String := "[" ++ ", ".intercalate items ++ "]"

mutual

def Outline.literal : Outline → Except LiteralError String
  | .leaf v => v.leafLiteral
  | .list items | .tuple items => listLiteral <$> itemLiterals items
  | .dict entries => do
    let texts ← entryLiterals entries
    return "\x7b" ++ ", ".intercalate texts ++ "\x7d"
  | .again .list | .again .tuple | .again .dict => .error .containsItself
  | _ => .error .noLiteral

def itemLiterals : List Outline → Except LiteralError (List String)
  | [] => .ok []
  | item :: rest => do
    let text ← item.literal
    return text :: (← itemLiterals rest)

def entryLiterals : List (String × Outline) → Except LiteralError (List String)
  | [] => .ok []
  | (k, v) :: rest => do
    let text ← v.literal
    return (Text.quote k ++ ": " ++ text) :: (← entryLiterals rest)

end

def Store.literal (s : Store) (v : Value) : Except LiteralError String := (s.outline v).literal

end ModelTypes
