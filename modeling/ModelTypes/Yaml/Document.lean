import ModelTypes.Yaml.Node
/-!
The data of a document. Collections are gone through level by level, each node once, so documents
that hold themselves have data too. Mappings take in the entries of the mappings they merge.
-/

namespace ModelTypes.Yaml

/-- The data of a node; what is inside of it is referred to by number. `pairs` are lists of pairs,
of which only the number is known. -/
inductive Item where
  | datum (d : Datum)
  | list (items : List Nat)
  | pairs (count : Nat)
  | mapping (entries : List (Nat × Nat))
  | set (members : List Nat)

/-- The nodes of a document, the data found so far, and the collections still to be gone
through. -/
structure Unfolding where
  nodes : List Node
  items : List (Nat × Item) := []
  pending : List Nat := []

abbrev ItemM := StateT Unfolding (Except Error)

namespace ItemM

def node (id : Nat) : ItemM Node := do
  match (← get).nodes[id]? with
  | some n => return n
  | none => throw .malformed

def entries (id : Nat) : ItemM (List (Nat × Nat)) := do
  match ← node id with
  | .mapping _ entries => return entries
  | _ => throw .malformed

def setEntries (id : Nat) (entries : List (Nat × Nat)) : ItemM Unit := do
  let tag := (← node id).tag
  modify fun s => { s with nodes := s.nodes.set id (.mapping tag entries) }

/-! ## Merging -/

/-- The key `=` is text where it stands as a key. -/
def readAsText (id : Nat) : ItemM Unit := do
  match ← node id with
  | .scalar .value text => modify fun s => { s with nodes := s.nodes.set id (.scalar .str text) }
  | _ => return ()

/-- Puts the entries that a mapping merges in front of its own. -/
def merge : Nat → Nat → ItemM Unit
  | 0, _ => throw .malformed
  | fuel + 1, id => do
    let all ← (← entries id).mapM fun e => return (e, (← node e.1).tag == .merge)
    let own := (all.filter (!·.2)).map (·.1)
    own.forM fun e => readAsText e.1
    setEntries id own
    let merged ← (all.filter (·.2)).mapM fun (e, _) => do
      match ← node e.2 with
      | .mapping .. =>
        merge fuel e.2
        entries e.2
      | .sequence _ sources =>
        let found ← sources.mapM fun source => do
          let _ ← entries source
          merge fuel source
          entries source
        return found.reverse.flatten
      | .scalar .. => throw .malformed
    setEntries id (merged.flatten ++ (← entries id))

/-! ## Data -/

/-- The text of a scalar; a mapping has the text under its key `=`. -/
def scalarText : Nat → Nat → ItemM ScalarText
  | 0, _ => throw .malformed
  | fuel + 1, id => do
    match ← node id with
    | .scalar _ text => return text
    | .sequence .. => throw .malformed
    | .mapping _ entries =>
      let keyed ← entries.mapM fun e => return ((← node e.1).tag == .value, e.2)
      match keyed.lookup true with
      | some value => scalarText fuel value
      | none => throw .malformed

def store (id : Nat) (i : Item) : ItemM Unit :=
  modify fun s => { s with items := (id, i) :: s.items.filter (·.1 != id) }

/-- What a collection is before it is gone through. -/
def emptyItem? : Tag → Option Item
  | .sequence => some (.list [])
  | .mapping => some (.mapping [])
  | .set => some (.set [])
  | .orderedMap | .pairs => some (.pairs 0)
  | _ => none

/-- The data of a node: all of a scalar's; a collection is kept for later. -/
def visit (id : Nat) : ItemM Item := do
  match (← get).items.lookup id with
  | some i => return i
  | none =>
    let tag := (← node id).tag
    match emptyItem? tag with
    | some i =>
      store id i
      modify fun s => { s with pending := s.pending ++ [id] }
      return i
    | none =>
      if tag = .merge || tag = .value then throw .malformed
      else
        match tag with
        | .other _ => throw .malformed
        | _ =>
          let i := Item.datum (← Datum.read tag (← scalarText ((← get).nodes.length + 1) id))
          store id i
          return i

/-- Entries whose keys are no collections. -/
def visitEntries (es : List (Nat × Nat)) : ItemM Unit :=
  es.forM fun e => do
    match ← visit e.1 with
    | .datum _ => let _ ← visit e.2
    | _ => throw .malformed

def items (id : Nat) : ItemM (List Nat) := do
  match ← node id with
  | .sequence _ items => return items
  | _ => throw .malformed

/-- Goes through a collection. -/
def unfold (id : Nat) : ItemM Unit := do
  match (← node id).tag with
  | .sequence =>
    let members ← items id
    members.forM fun member => do let _ ← visit member
    store id (.list members)
  | .mapping | .set =>
    let _ ← entries id
    merge ((← get).nodes.length + 1) id
    let es ← entries id
    visitEntries es
    store id (if (← node id).tag = .set then .set (es.map (·.1)) else .mapping es)
  | _ =>
    let members ← items id
    members.forM fun member => do
      match ← entries member with
      | [e] => let _ ← visit e.1; let _ ← visit e.2
      | _ => throw .malformed
    store id (.pairs members.length)

def unfoldAll : Nat → ItemM Unit
  | 0 => return ()
  | fuel + 1 => do
    match (← get).pending with
    | [] => return ()
    | id :: rest =>
      modify fun s => { s with pending := rest }
      unfold id
      unfoldAll fuel

end ItemM

/-- The data of a document, and where it starts. -/
structure Document where
  items : List (Nat × Item)
  root : Nat

namespace Document

/-- A document that holds nothing. -/
def nothing : Document := ⟨[(0, .datum .null)], 0⟩

/-- The data of a text in which every line ends in a line feed. -/
def read (text : String) : Except Error Document := do
  let cs := text.toList
  if cs.all isAllowed then
    let (tokens, fault) := tokens cs
    let (root, s) ← NodeM.document.run { tokens, fault }
    match root with
    | none => return nothing
    | some root =>
      let start : Unfolding := { nodes := s.nodes }
      let (_, u) ← (do let _ ← ItemM.visit root; ItemM.unfoldAll (s.nodes.length + 1)).run start
      return ⟨u.items, root⟩
  else throw .malformed

/-! ## Looking up -/

def item (doc : Document) (id : Nat) : Item := (doc.items.lookup id).getD (.datum .null)

/-- The text that a node is. -/
def text? (doc : Document) (id : Nat) : Option ScalarText :=
  match doc.item id with
  | .datum (.str t) => some t
  | _ => none

/-- The last value that a mapping gives a key. -/
def get? (doc : Document) (entries : List (Nat × Nat)) (key : String) : Option Nat :=
  ((entries.filter fun e => doc.text? e.1 == some { text := key }).getLast?).map (·.2)

/-- Whether data is empty, zero or false. -/
def isFalse (doc : Document) (id : Nat) : Bool :=
  match doc.item id with
  | .datum .null => true
  | .datum (.bool b) => !b
  | .datum (.int n) => n == 0
  | .datum (.float d) => d.isZero
  | .datum (.str t) => t.text == ""
  | .datum (.bytes data) => data.isEmpty
  | .datum .date | .datum .datetime => false
  | .list items => items.isEmpty
  | .pairs count => count == 0
  | .mapping entries => entries.isEmpty
  | .set members => members.isEmpty

/-- What data is called. -/
def typeName (doc : Document) (id : Nat) : String :=
  match doc.item id with
  | .datum .null => "NoneType"
  | .datum (.bool _) => "bool"
  | .datum (.int _) => "int"
  | .datum (.float _) => "float"
  | .datum (.str _) => "str"
  | .datum (.bytes _) => "bytes"
  | .datum .date => "date"
  | .datum .datetime => "datetime"
  | .list _ | .pairs _ => "list"
  | .mapping _ => "dict"
  | .set _ => "set"

end Document
end ModelTypes.Yaml
