import ModelTypes.Yaml.Tag
/-!
The tokens of a YAML text. Indentation becomes tokens of its own: one where a block collection
starts and one where it ends. A key needs no sign in front when a colon follows it on its line, so
every token that may be such a key is remembered until the colon, or the lack of one, decides.
-/

namespace ModelTypes.Yaml

inductive Token where
  | directive (d : Directive)
  | documentStart
  | documentEnd
  | streamEnd
  | sequenceStart
  | mappingStart
  | blockEnd
  | flowSequenceStart
  | flowSequenceEnd
  | flowMappingStart
  | flowMappingEnd
  | blockEntry
  | flowEntry
  | key
  | value
  | alias (name : String)
  | anchor (name : String)
  | tag (t : WrittenTag)
  | scalar (text : ScalarText) (plain : Bool)
deriving DecidableEq, Repr

/-- A token that may turn out to be a key: the number of tokens before it and where it stands. A
required one stands where a block mapping has to go on. -/
structure KeyCandidate where
  tokens : Nat
  required : Bool
  index : Nat
  line : Nat
  column : Nat

/-- The tokens read so far, and what decides how to go on. Candidates are kept by the depth of
flow collections that they stand in. -/
structure Reading where
  cursor : Cursor
  tokens : List Token := []
  indent : Int := -1
  indents : List Int := []
  depth : Nat := 0
  keyAllowed : Bool := true
  candidates : List (Nat × KeyCandidate) := []

namespace Reading

def emit (r : Reading) (t : Token) : Reading := { r with tokens := r.tokens ++ [t] }

def inFlow (r : Reading) : Bool := r.depth != 0

/-! ## Candidates for keys -/

/-- A key does not go beyond its line, nor beyond 1024 characters. -/
def KeyCandidate.isStale (r : Reading) (k : KeyCandidate) : Bool :=
  k.line != r.cursor.line || 1024 < r.cursor.index - k.index

def dropStale (r : Reading) : Except Error Reading :=
  let (stale, fresh) := r.candidates.partition fun k => KeyCandidate.isStale r k.2
  if stale.any (·.2.required) then .error .malformed else .ok { r with candidates := fresh }

/-- Gives up the candidate at the present depth. -/
def dropCandidate (r : Reading) : Except Error Reading :=
  if r.candidates.any fun k => k.1 == r.depth && k.2.required then .error .malformed
  else .ok { r with candidates := r.candidates.filter (·.1 != r.depth) }

/-- Remembers that the next token may be a key. -/
def addCandidate (r : Reading) : Except Error Reading :=
  if r.keyAllowed then do
    let c := r.cursor
    let required := !r.inFlow && r.indent == c.column
    let r ← r.dropCandidate
    return { r with
      candidates := (r.depth, ⟨r.tokens.length, required, c.index, c.line, c.column⟩)
        :: r.candidates }
  else .ok r

/-! ## Indentation -/

/-- Ends the block collections that are indented deeper than a column. -/
def closeBlocks (r : Reading) (column : Int) : List Int → Reading
  | [] => r
  | outer :: indents =>
    if column < r.indent then
      closeBlocks { r.emit .blockEnd with indent := outer, indents } column indents
    else r

def unwind (r : Reading) (column : Int) : Reading :=
  if r.inFlow then r else r.closeBlocks column r.indents

/-- Opens a block collection if a column is indented deeper than the present one; its token is
put before the token with the given number. -/
def openBlock (r : Reading) (column : Nat) (start : Token) (place : Nat) : Reading :=
  if r.indent < column then
    { r with
      indents := r.indent :: r.indents
      indent := column
      tokens := r.tokens.insertIdx place start }
  else r

/-! ## Tokens -/

/-- Blanks, comments and line breaks before a token. Outside of flow collections a line may start
with a key. -/
def toNextToken : Nat → Reading → Reading
  | 0, r => r
  | fuel + 1, r =>
    let c := r.cursor.skipWhile (· = ' ')
    let c := if c.sees (· = '#') then c.skipWhile (!isBreak ·) else c
    match c.takeBreak with
    | (some _, c) =>
      toNextToken fuel { r with cursor := c, keyAllowed := r.keyAllowed || !r.inFlow }
    | (none, c) => { r with cursor := c }

def endStream (r : Reading) : Except Error Reading := do
  let r ← (r.unwind (-1)).dropCandidate
  return r.emit .streamEnd

def readDirective (r : Reading) : Except Error Reading := do
  let r ← (r.unwind (-1)).dropCandidate
  let (d, cursor) ← directive r.cursor
  return { r with cursor, keyAllowed := false }.emit (.directive d)

/-- A line of three signs that starts or ends a document. -/
def readSeparator (r : Reading) (t : Token) : Except Error Reading := do
  let r ← (r.unwind (-1)).dropCandidate
  return { r with cursor := r.cursor.skip 3, keyAllowed := false }.emit t

def openFlow (r : Reading) (t : Token) : Except Error Reading := do
  let r ← r.addCandidate
  return { r with cursor := r.cursor.next, keyAllowed := true, depth := r.depth + 1 }.emit t

def closeFlow (r : Reading) (t : Token) : Except Error Reading := do
  let r ← r.dropCandidate
  if r.depth = 0 then .error .malformed
  else return { r with cursor := r.cursor.next, keyAllowed := false, depth := r.depth - 1 }.emit t

def readFlowEntry (r : Reading) : Except Error Reading := do
  let r ← r.dropCandidate
  return { r with cursor := r.cursor.next, keyAllowed := true }.emit .flowEntry

/-- Opens the block collection that a sign belongs to, where a key or entry may stand. -/
def openAtSign (r : Reading) (start : Token) : Except Error Reading :=
  if r.inFlow then .ok r
  else if r.keyAllowed then .ok (r.openBlock r.cursor.column start r.tokens.length)
  else .error .malformed

def readBlockEntry (r : Reading) : Except Error Reading := do
  let r ← (← r.openAtSign .sequenceStart).dropCandidate
  return { r with cursor := r.cursor.next, keyAllowed := true }.emit .blockEntry

def readKey (r : Reading) : Except Error Reading := do
  let r ← (← r.openAtSign .mappingStart).dropCandidate
  return { r with cursor := r.cursor.next, keyAllowed := !r.inFlow }.emit .key

/-- A colon makes a key of the candidate at its depth; without one the key is empty. -/
def readValue (r : Reading) : Except Error Reading :=
  match r.candidates.lookup r.depth with
  | some k =>
    let r := { r with
      candidates := r.candidates.filter (·.1 != r.depth)
      tokens := r.tokens.insertIdx k.tokens .key }
    let r := if r.inFlow then r else r.openBlock k.column .mappingStart k.tokens
    .ok ({ r with cursor := r.cursor.next, keyAllowed := false }.emit .value)
  | none => do
    let r ← (← r.openAtSign .mappingStart).dropCandidate
    return { r with cursor := r.cursor.next, keyAllowed := !r.inFlow }.emit .value

/-- A token that may be a key. -/
def readNamed {α : Type} (r : Reading) (read : Cursor → Except Error (α × Cursor))
    (token : α → Token) : Except Error Reading := do
  let r ← r.addCandidate
  let (a, cursor) ← read r.cursor
  return { r with cursor, keyAllowed := false }.emit (token a)

def readBlock (r : Reading) (folded : Bool) : Except Error Reading := do
  let r ← r.dropCandidate
  let (cs, cursor) ← blockText folded r.indent r.cursor.next
  return { r with cursor, keyAllowed := true }.emit (.scalar (.ofChars cs) false)

def readQuoted (r : Reading) (double : Bool) : Except Error Reading :=
  r.readNamed (fun c => quotedText double (c.rest.length + 1) c.next)
    fun units => .scalar (.ofUnits units) false

def readPlain (r : Reading) : Except Error Reading := do
  let r ← r.addCandidate
  let (cs, broke, cursor) := plainText r.inFlow (r.indent + 1) r.cursor.rest.length r.cursor
  return { r with cursor, keyAllowed := broke }.emit (.scalar (.ofChars cs) true)

/-- The characters that have a meaning of their own at the start of a token. -/
def indicators : List Char :=
  ['-', '?', ':', ',', '[', ']', '{', '}', '#', '&', '*', '!', '|', '>', '\'', '"', '%', '@',
   '\x60']

/-- Whether a plain scalar can start here. -/
def startsPlain (r : Reading) (ch : Char) : Bool :=
  !(isSpace ch || indicators.contains ch)
    || (!endOr isSpace (r.cursor.peek 1) && (ch = '-' || (!r.inFlow && (ch = '?' || ch = ':'))))

/-- Reads the token that starts with a character. -/
def readToken (r : Reading) (ch : Char) : Except Error Reading :=
  let c := r.cursor
  let spaced := endOr isSpace (c.peek 1)
  if ch = '%' && c.column = 0 then r.readDirective
  else if c.column = 0 && c.seesMark '-' then r.readSeparator .documentStart
  else if c.column = 0 && c.seesMark '.' then r.readSeparator .documentEnd
  else if ch = '[' then r.openFlow .flowSequenceStart
  else if ch = '\x7b' then r.openFlow .flowMappingStart
  else if ch = ']' then r.closeFlow .flowSequenceEnd
  else if ch = '\x7d' then r.closeFlow .flowMappingEnd
  else if ch = ',' then r.readFlowEntry
  else if ch = '-' && spaced then r.readBlockEntry
  else if ch = '?' && (r.inFlow || spaced) then r.readKey
  else if ch = ':' && (r.inFlow || spaced) then r.readValue
  else if ch = '*' then r.readNamed anchorName .alias
  else if ch = '&' then r.readNamed anchorName .anchor
  else if ch = '!' then r.readNamed writtenTag .tag
  else if ch = '|' && !r.inFlow then r.readBlock false
  else if ch = '>' && !r.inFlow then r.readBlock true
  else if ch = '\'' then r.readQuoted false
  else if ch = '"' then r.readQuoted true
  else if r.startsPlain ch then r.readPlain
  else .error .malformed

/-- The tokens up to the first that may still turn out to be a key. -/
def settled (r : Reading) : List Token :=
  let fresh := r.candidates.filter fun k => !KeyCandidate.isStale r k.2
  r.tokens.take ((fresh.map (·.2.tokens)).foldl min r.tokens.length)

/-- One more token, or the end. -/
def step (r : Reading) : Except Error (Reading × Bool) := do
  let r ← (r.toNextToken (r.cursor.rest.length + 1)).dropStale
  let r := r.unwind r.cursor.column
  match r.cursor.peek with
  | none => return (← r.endStream, true)
  | some ch => return (← r.readToken ch, false)

/-- Reads up to the end of the text, or up to a fault. Tokens that are not settled when the fault
is met are not read. -/
def run : Nat → Reading → List Token × Option Error
  | 0, r => (r.settled, some .malformed)
  | fuel + 1, r =>
    match r.step with
    | .ok (r, ended) => if ended then (r.tokens, none) else run fuel r
    | .error e => (r.settled, some e)

end Reading

/-- The tokens of a text, and the fault that ends them before the text does, if there is one. A
byte order mark at the start does not count. -/
def tokens (text : List Char) : List Token × Option Error :=
  let start : Cursor := { rest := text }
  let start := if start.sees (· = '\ufeff') then start.next else start
  Reading.run (text.length + 1) { cursor := start }

end ModelTypes.Yaml
