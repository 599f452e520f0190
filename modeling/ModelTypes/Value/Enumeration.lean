import ModelTypes.Value.Basic
/-!
Enumerations: equality of values, the members that are not aliases of earlier ones, and the
attributes by which values can be asked for more.
-/

namespace ModelTypes

/-- Numbers are compared across their types; booleans count as 0 and 1. -/
inductive Number where
  | exact (n : Int)
  | double (d : Double)

def Value.number? : Value → Option Number
  | .bool b => some (.exact (if b then 1 else 0))
  | .int n => some (.exact n)
  | .float d => some (.double d)
  | _ => none

def Number.same : Number → Number → Bool
  | .exact a, .exact b => a == b
  | .exact a, .double b => b.toInt? == some a
  | .double a, .exact b => a.toInt? == some b
  | .double a, .double b => a.sameNumber b

namespace Store

/-- Pairwise comparison of two lists of one length. -/
def sameItems (same : Value → Value → Bool) : List Value → List Value → Bool
  | [], [] => true
  | a :: as, b :: bs => same a b && sameItems same as bs
  | _, _ => false

/-- The order of entries does not count. -/
def sameEntries (same : Value → Value → Bool) (as bs : Entries) : Bool :=
  as.length == bs.length && as.all fun (k, a) =>
    match Keyed.get? bs k with
    | some b => same a b
    | none => false

/-- The members of an enumeration without those that equal an earlier one. -/
def distinctMembers (same : Value → Value → Bool) (members : Entries) : Entries :=
  members.foldl (fun kept m => if kept.any (fun k => same k.2 m.2) then kept else kept ++ [m]) []

/-- The member that a member's name stands for: the first with an equal value. -/
def canonicalMember (same : Value → Value → Bool) (members : Entries) (name : String) :
    Option (String × Value) :=
  (Keyed.get? members name).bind fun value =>
    (distinctMembers same members).find? fun m => m.1 == name || same m.2 value

/-- Equality of values, looked into for `depth` levels of written containers. -/
def same (s : Store) : Nat → Value → Value → Bool
  | 0, _, _ => false
  | depth + 1, a, b =>
    match a.number?, b.number? with
    | some x, some y => x.same y
    | some _, none => false
    | none, some _ => false
    | none, none =>
      match a.text?, b.text? with
      | some x, some y => x == y
      | some _, none => false
      | none, some _ => false
      | none, none =>
        match a, b with
        | .null, .null => true
        | .bytes x, .bytes y => x == y
        | .marker x, .marker y => x == y
        | .function, .function => true
        | .schema x, .schema y => x == y
        | .virtual p (some x), .virtual q (some y) => p == q && x == y
        | .member x n, .member y m =>
          x == y && match s.node? (.shared x) with
            | some (.enumeration _ members) =>
              (canonicalMember (same s depth) members n).map (·.1) ==
                (canonicalMember (same s depth) members m).map (·.1)
            | _ => n == m
        | .shared x, .shared y =>
          x == y || match s.node? a, s.node? b with
            | some (.list xs), some (.list ys) => sameItems (same s depth) xs ys
            | some (.tuple xs), some (.tuple ys) => sameItems (same s depth) xs ys
            | some (.dict xs), some (.dict ys) => sameEntries (same s depth) xs ys
            | some (.object xs), some (.object ys) => sameEntries (same s depth) xs ys
            | some (.model n x), some (.model m y) => same s depth n m && same s depth x y
            | some (.embedded e x), some (.embedded f y) => e == f && same s depth x y
            | _, _ => false
        | _, _ => false

/-- Equality of values; a chain of containers that does not return to itself is no longer than
the store. -/
def equal (s : Store) (a b : Value) : Bool := s.same (s.nodes.length + 2) a b

/-- Name and members of an enumeration, aliases left out. -/
def enumeration? (s : Store) (v : Value) : Option (String × Entries) :=
  match s.node? v with
  | some (.enumeration name members) => some (name, distinctMembers s.equal members)
  | _ => none

/-- Name of the enumeration, name and value of a member. -/
def member? (s : Store) : Value → Option (String × String × Value)
  | .member a n =>
    match s.node? (.shared a) with
    | some (.enumeration name members) =>
      (canonicalMember s.equal members n).map fun m => (name, m.1, m.2)
    | _ => none
  | _ => none

/-! ## Attributes -/

/-- The attributes of a virtual that others may ask for. -/
def virtualAttributes (path : String) : Entries :=
  [("path", .str path), ("getters", .list []), ("setters", .list [])]

/-- What a value answers when asked for an attribute by name. -/
def attribute? (s : Store) (v : Value) (name : String) : Option Value :=
  match v with
  | .virtual path _ => Keyed.get? (virtualAttributes path) name
  | .member a _ =>
    match s.node? (.shared a), s.member? v with
    | some (.enumeration _ members), some (_, own, value) =>
      if name == "name" then some (.str own)
      else if name == "value" then some value
      else if Keyed.has members name then some (.member a name) else none
    | _, _ => none
  | .shared a =>
    match s.node? v with
    | some (.object attributes) => Keyed.get? attributes name
    | some (.model modelName schema) =>
      if name == "model_name" then some modelName
      else if name == "schema" then some schema else none
    | some (.embedded e schema) =>
      if name == "schema" then some schema else if name == "name" then some (.str e.name) else none
    | some (.enumeration _ members) =>
      if Keyed.has members name then some (.member a name) else none
    | _ => none
  | _ => none

/-- The values met when going through a value one by one, if it allows that. -/
def iterate? (s : Store) (v : Value) : Option (List Value) :=
  match v with
  | .str t => some (t.toList.map fun c => .str c.toString)
  | .kind k => some (k.name.toList.map fun c => .str c.toString)
  | .bytes data => some (data.map fun b => .int b.toNat)
  | v =>
    match s.sequence? v, s.entries? v with
    | some items, _ => some items
    | none, some entries => some (entries.map fun e => .str e.1)
    | none, none =>
      match v, s.enumeration? v with
      | .shared a, some (_, members) => some (members.map fun m => .member a m.1)
      | _, _ => none

end Store
end ModelTypes
