import ModelTypes.Yaml.Datum
import ModelTypes.Yaml.Token
/-!
The nodes of a document. Nodes refer to one another by number, so that an alias can name a node
again, also from inside of it.
-/

namespace ModelTypes.Yaml

inductive Node where
  | scalar (tag : Tag) (text : ScalarText)
  | sequence (tag : Tag) (items : List Nat)
  | mapping (tag : Tag) (entries : List (Nat × Nat))

def Node.tag : Node → Tag
  | .scalar tag _ => tag
  | .sequence tag _ => tag
  | .mapping tag _ => tag

/-- The tokens to come, the fault behind them if there is one, and what is known so far. -/
structure Composing where
  tokens : List Token
  fault : Option Error
  nodes : List Node := []
  anchors : List (String × Nat) := []
  handles : List (String × String) := []

abbrev NodeM := StateT Composing (Except Error)

namespace NodeM

def peek : NodeM Token := do
  match (← get).tokens with
  | t :: _ => return t
  | [] => throw ((← get).fault.getD .malformed)

def advance : NodeM Unit := modify fun s => { s with tokens := s.tokens.drop 1 }

def malformed {α : Type} : NodeM α := throw .malformed

/-- Whether the next token is one of a few. -/
def sees (ts : List Token) : NodeM Bool := return ts.contains (← peek)

/-! ## Building nodes -/

def allocate (n : Node) : NodeM Nat := do
  let s ← get
  set { s with nodes := s.nodes ++ [n] }
  return s.nodes.length

def fill (id : Nat) (n : Node) : NodeM Unit := modify fun s => { s with nodes := s.nodes.set id n }

/-- What stands where nothing is written. -/
def empty : NodeM Nat := allocate (.scalar .null (.ofChars []))

def name (anchor : Option String) (id : Nat) : NodeM Unit := do
  match anchor with
  | none => return ()
  | some a =>
    let s ← get
    if s.anchors.any (·.1 == a) then malformed
    else set { s with anchors := (a, id) :: s.anchors }

/-! ## Anchors and tags -/

def takeAnchor : NodeM (Option String) := do
  match ← peek with
  | .anchor a => advance; return some a
  | _ => return none

def takeTag : NodeM (Option WrittenTag) := do
  match ← peek with
  | .tag t => advance; return some t
  | _ => return none

/-- The full name of a tag. -/
def fullName : Option WrittenTag → NodeM (Option String)
  | none => return none
  | some t => do
    match t.handle with
    | none => return some t.suffix
    | some handle =>
      match (← get).handles.lookup handle with
      | some lead => return some (lead ++ t.suffix)
      | none => malformed

/-- An anchor and a tag, in either order. -/
def takeProperties : NodeM (Option String × Option String) := do
  match ← takeAnchor with
  | some a => return (some a, ← fullName (← takeTag))
  | none =>
    match ← takeTag with
    | some t =>
      let anchor ← takeAnchor
      return (anchor, ← fullName (some t))
    | none => return (none, none)

/-- The tag of a collection; an exclamation mark alone asks for nothing. -/
def collectionTag (tag : Option String) (usual : Tag) : Tag :=
  match tag with
  | none | some "!" => usual
  | some name => .ofName name

/-- Without a tag plain scalars are what they are written like, others are text. -/
def scalarTag (tag : Option String) (plain : Bool) (text : String) : Tag :=
  match tag with
  | none => if plain then .ofPlain text else .str
  | some "!" => .ofPlain text
  | some name => .ofName name

/-! ## Nodes -/

mutual

/-- A node. Block collections are allowed in some places only, and sequences without indentation
only under a key. -/
def node (block unindented : Bool) : Nat → NodeM Nat
  | 0 => malformed
  | fuel + 1 => do
    match ← peek with
    | .alias a =>
      advance
      match (← get).anchors.lookup a with
      | some id => return id
      | none => malformed
    | _ =>
      let (anchor, tag) ← takeProperties
      let sequenceTag := collectionTag tag .sequence
      let mappingTag := collectionTag tag .mapping
      match ← peek with
      | .scalar text plain =>
        advance
        let id ← allocate (.scalar (scalarTag tag plain text.text) text)
        name anchor id
        return id
      | .flowSequenceStart =>
        advance
        let id ← allocate (.sequence sequenceTag [])
        name anchor id
        fill id (.sequence sequenceTag (← flowItems true fuel))
        return id
      | .flowMappingStart =>
        advance
        let id ← allocate (.mapping mappingTag [])
        name anchor id
        fill id (.mapping mappingTag (← flowEntries true fuel))
        return id
      | t =>
        if unindented && t == .blockEntry then
          let id ← allocate (.sequence sequenceTag [])
          name anchor id
          fill id (.sequence sequenceTag (← unindentedItems fuel))
          return id
        else if block && t == .sequenceStart then
          advance
          let id ← allocate (.sequence sequenceTag [])
          name anchor id
          fill id (.sequence sequenceTag (← blockItems fuel))
          return id
        else if block && t == .mappingStart then
          advance
          let id ← allocate (.mapping mappingTag [])
          name anchor id
          fill id (.mapping mappingTag (← blockEntries fuel))
          return id
        else if anchor.isSome || tag.isSome then
          let id ← allocate (.scalar (scalarTag tag true "") (.ofChars []))
          name anchor id
          return id
        else malformed

/-- A node, or nothing if one of a few tokens follows. -/
def nodeUnless (ends : List Token) (block unindented : Bool) : Nat → NodeM Nat
  | 0 => malformed
  | fuel + 1 => do if ← sees ends then empty else node block unindented fuel

def blockItems : Nat → NodeM (List Nat)
  | 0 => malformed
  | fuel + 1 => do
    match ← peek with
    | .blockEntry =>
      advance
      let item ← nodeUnless [.blockEntry, .blockEnd] true false fuel
      return item :: (← blockItems fuel)
    | .blockEnd => advance; return []
    | _ => malformed

def unindentedItems : Nat → NodeM (List Nat)
  | 0 => malformed
  | fuel + 1 => do
    match ← peek with
    | .blockEntry =>
      advance
      let item ← nodeUnless [.blockEntry, .key, .value, .blockEnd] true false fuel
      return item :: (← unindentedItems fuel)
    | _ => return []

/-- The value behind a key, nothing if there is no colon. -/
def valueUnless (ends : List Token) (block : Bool) : Nat → NodeM Nat
  | 0 => malformed
  | fuel + 1 => do
    match ← peek with
    | .value => advance; nodeUnless ends block block fuel
    | _ => empty

def blockEntries : Nat → NodeM (List (Nat × Nat))
  | 0 => malformed
  | fuel + 1 => do
    match ← peek with
    | .key =>
      advance
      let ends : List Token := [.key, .value, .blockEnd]
      let key ← nodeUnless ends true true fuel
      let value ← valueUnless ends true fuel
      return (key, value) :: (← blockEntries fuel)
    | .blockEnd => advance; return []
    | _ => malformed

/-- The items of a flow sequence; an item may be a single pair of key and value. -/
def flowItems (first : Bool) : Nat → NodeM (List Nat)
  | 0 => malformed
  | fuel + 1 => do
    if ← sees [.flowSequenceEnd] then advance; return []
    else
      if !first then if ← sees [.flowEntry] then advance else malformed
      match ← peek with
      | .flowSequenceEnd => advance; return []
      | .key =>
        advance
        let id ← allocate (.mapping .mapping [])
        let key ← nodeUnless [.value, .flowEntry, .flowSequenceEnd] false false fuel
        let value ← valueUnless [.flowEntry, .flowSequenceEnd] false fuel
        fill id (.mapping .mapping [(key, value)])
        return id :: (← flowItems false fuel)
      | _ =>
        let item ← node false false fuel
        return item :: (← flowItems false fuel)

/-- The entries of a flow mapping; a key may stand alone. -/
def flowEntries (first : Bool) : Nat → NodeM (List (Nat × Nat))
  | 0 => malformed
  | fuel + 1 => do
    if ← sees [.flowMappingEnd] then advance; return []
    else
      if !first then if ← sees [.flowEntry] then advance else malformed
      match ← peek with
      | .flowMappingEnd => advance; return []
      | .key =>
        advance
        let key ← nodeUnless [.value, .flowEntry, .flowMappingEnd] false false fuel
        let value ← valueUnless [.flowEntry, .flowMappingEnd] false fuel
        return (key, value) :: (← flowEntries false fuel)
      | _ =>
        let key ← node false false fuel
        let value ← empty
        return (key, value) :: (← flowEntries false fuel)

end

/-! ## Documents -/

def usualHandles : List (String × String) := [("!", "!"), ("!!", coreLead)]

/-- The directives of a document: the version once, which has to be the first, and each handle
once. -/
def directives (version : Bool) (handles : List (String × String)) :
    Nat → NodeM (List (String × String))
  | 0 => malformed
  | fuel + 1 => do
    match ← peek with
    | .directive d =>
      advance
      match d with
      | .version major =>
        if version || major != 1 then malformed else directives true handles fuel
      | .handle name lead =>
        if handles.any (·.1 == name) then malformed
        else directives version ((name, lead) :: handles) fuel
      | .other => directives version handles fuel
    | _ => return handles

/-- The root of the only document of a text, if there is one. -/
def document : NodeM (Option Nat) := do
  let fuel := 4 * (← get).tokens.length + 8
  if ← sees [.streamEnd] then return none
  else
    let directed := match ← peek with
      | .directive _ => true
      | _ => false
    let handles ← directives false [] fuel
    modify fun s => { s with handles := handles ++ usualHandles }
    let root ← match ← peek with
      | .documentStart =>
        advance
        match ← peek with
        | .directive _ | .documentStart | .documentEnd | .streamEnd => empty
        | _ => node true false fuel
      | _ => if directed then malformed else node true false fuel
    modify fun s => { s with tokens := s.tokens.dropWhile (· == .documentEnd) }
    if ← sees [.streamEnd] then return some root else malformed

end NodeM
end ModelTypes.Yaml
