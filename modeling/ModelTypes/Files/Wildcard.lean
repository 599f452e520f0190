/-!
File name patterns: `*` stands for any text, `?` for one character, and brackets for one of the
characters they list, or, after `!`, for one that they do not list.
-/

namespace ModelTypes.Wildcard

/-- A character between brackets, or a range of them. -/
inductive Listed where
  | one (c : Char)
  | range (first last : Char)
deriving DecidableEq, Repr

/-- A piece of a pattern. -/
inductive Piece where
  | run
  | any
  | char (c : Char)
  | set (negated : Bool) (listed : List Listed)
deriving DecidableEq, Repr

/-! ## Reading -/

/-- Characters, of which two with a hyphen between them make a range. -/
def ranges : List Char → List Listed
  | a :: '-' :: b :: rest => .range a b :: ranges rest
  | c :: rest => .one c :: ranges rest
  | [] => []

/-- What is listed between brackets. The `!` in front of a negated set begins no range. -/
def listed : List Char → List Listed
  | '!' :: rest => .one '!' :: ranges rest
  | cs => ranges cs

def Listed.isEmpty : Listed → Bool
  | .one _ => false
  | .range first last => last < first

/-- The set that brackets stand for: ranges that run backwards are left out, and if `!` is then in
front, it negates the rest. -/
def setOf (cs : List Char) : Piece :=
  match (listed cs).filter (!·.isEmpty) with
  | .one '!' :: rest => .set true rest
  | .range '!' last :: rest => .set true (.one '-' :: .one last :: rest)
  | all => .set false all

/-- The characters between an open bracket and its end, which is the first closing bracket that
is not the first character listed. -/
def bracketed? (cs : List Char) : Option (List Char) :=
  let lead := if ['!', ']'].isPrefixOf cs then 2 else if ['!'].isPrefixOf cs || [']'].isPrefixOf cs
    then 1 else 0
  let rest := cs.drop lead
  if rest.contains ']' then some (cs.take lead ++ rest.takeWhile (· != ']')) else none

/-- The pieces of a pattern after its next `skip` characters. -/
def pieces (skip : Nat) : List Char → List Piece
  | [] => []
  | c :: rest =>
    match skip with
    | skip + 1 => pieces skip rest
    | 0 =>
      if c = '*' then .run :: pieces 0 rest
      else if c = '?' then .any :: pieces 0 rest
      else if c = '[' then
        match bracketed? rest with
        | some cs => setOf cs :: pieces (cs.length + 1) rest
        | none => .char '[' :: pieces 0 rest
      else .char c :: pieces 0 rest

/-! ## Matching -/

def Listed.holds (c : Char) : Listed → Bool
  | .one a => c == a
  | .range first last => first ≤ c && c ≤ last

def Piece.holds (c : Char) : Piece → Bool
  | .run => false
  | .any => true
  | .char a => c == a
  | .set negated listed => listed.any (Listed.holds c) != negated

/-- Whether some rest of a text fits. -/
def someRest (fits : List Char → Bool) : List Char → Bool
  | [] => fits []
  | c :: cs => fits (c :: cs) || someRest fits cs

def fits : List Piece → List Char → Bool
  | [], cs => cs.isEmpty
  | .run :: rest, cs => someRest (fits rest) cs
  | piece :: rest, cs =>
    match cs with
    | [] => false
    | c :: cs => piece.holds c && fits rest cs

def isWild (pattern : String) : Bool :=
  pattern.toList.any fun c => c == '*' || c == '?' || c == '['

def isHidden (name : String) : Bool := ['.'].isPrefixOf name.toList

/-- Whether a name fits a pattern. Hidden names only fit patterns that start with a dot. -/
def accepts (pattern name : String) : Bool :=
  (isHidden pattern || !isHidden name) && fits (pieces 0 pattern.toList) name.toList

end ModelTypes.Wildcard
