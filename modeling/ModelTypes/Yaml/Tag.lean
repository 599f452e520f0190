import ModelTypes.Yaml.Scalar
/-!
Tags, the directives that give tags their handles, and the names of anchors. A tag is a handle and
a suffix; the handle stands for the start of the full name.
-/

namespace ModelTypes.Yaml

/-- A line that starts with a percent sign. -/
inductive Directive where
  | version (major : Nat)
  | handle (name lead : String)
  | other
deriving DecidableEq, Repr

/-- A tag as it is written; one without a handle is written in full. -/
structure WrittenTag where
  handle : Option String
  suffix : String
deriving DecidableEq, Repr

/-! ## Names -/

def isUriChar (c : Char) : Bool :=
  c.isAlphanum || "-;/?:@&=+$,_.!~*()[]'".toList.contains c

/-- Bytes written as percent signs with two digits each. -/
def uriBytes : Nat → Cursor → Except Error (List UInt8 × Cursor)
  | 0, c => .ok ([], c)
  | fuel + 1, c =>
    if c.sees (· = '%') then
      let digits := (c.rest.drop 1).take 2
      if digits.length = 2 && digits.all isHexDigit then do
        let (others, c) ← uriBytes fuel (c.skip 3)
        return (UInt8.ofNat (hexValue digits) :: others, c)
      else .error .malformed
    else .ok ([], c)

def uriChars : Nat → Cursor → Except Error (List Char × Cursor)
  | 0, c => .ok ([], c)
  | fuel + 1, c => do
    let (word, c) := c.span isUriChar
    if c.sees (· = '%') then
      let (data, c) ← uriBytes (c.rest.length + 1) c
      match String.fromUTF8? ⟨data.toArray⟩ with
      | some written =>
        let (rest, c) ← uriChars fuel c
        return (word ++ written.toList ++ rest, c)
      | none => .error .malformed
    else return (word, c)

/-- The suffix of a tag, which cannot be empty. -/
def uri (c : Cursor) : Except Error (String × Cursor) :=
  if c.sees fun ch => isUriChar ch || ch = '%' then do
    let (cs, c) ← uriChars (c.rest.length + 1) c
    return (String.ofList cs, c)
  else .error .malformed

/-- A handle: an exclamation mark, or a word between two of them. -/
def tagHandle (c : Cursor) : Except Error (String × Cursor) :=
  if c.sees (· = '!') then
    if c.sees (· = ' ') 1 then .ok ("!", c.next)
    else
      let (word, behind) := c.next.span isWordChar
      if behind.sees (· = '!') then .ok (String.ofList ('!' :: word ++ ['!']), behind.next)
      else .error .malformed
  else .error .malformed

/-- Whether the name of an anchor may end before a character. -/
def endsAnchor (ch : Char) : Bool :=
  isSpace ch || ['?', ':', ',', ']', '}', '%', '@', '\x60'].contains ch

/-- The name behind the sign of an anchor or alias. -/
def anchorName (c : Cursor) : Except Error (String × Cursor) :=
  let (word, c) := c.next.span isWordChar
  if !word.isEmpty && endOr endsAnchor c.peek then
    .ok (String.ofList word, c)
  else .error .malformed

def isTagEnd (ch : Char) : Bool := ch = ' ' || isBreak ch

def writtenTag (c : Cursor) : Except Error (WrittenTag × Cursor) := do
  let (tag, c) ← (
    if c.sees (· = '<') 1 then do
      let (suffix, c) ← uri (c.skip 2)
      if c.sees (· = '>') then return (⟨none, suffix⟩, c.next) else .error .malformed
    else if endOr isSpace (c.peek 1) then return (⟨none, "!"⟩, c.next)
    else do
      let (handle, c) ←
        if ((c.rest.drop 1).takeWhile (!isTagEnd ·)).contains '!' then tagHandle c
        else pure ("!", c.next)
      let (suffix, c) ← uri c
      return (⟨some handle, suffix⟩, c) : Except Error (WrittenTag × Cursor))
  if endOr isTagEnd c.peek then return (tag, c) else .error .malformed

/-! ## Directives -/

def directiveNumber (c : Cursor) : Except Error (Nat × Cursor) :=
  let (digits, c) := c.span Char.isDigit
  if digits.isEmpty then .error .malformed
  else .ok (digits.foldl (fun n d => n * 10 + (d.toNat - 48)) 0, c)

def directiveVersion (c : Cursor) : Except Error (Directive × Cursor) := do
  let (major, c) ← directiveNumber (c.skipWhile (· = ' '))
  if c.sees (· = '.') then
    let (_, c) ← directiveNumber c.next
    if endOr isTagEnd c.peek then return (.version major, c) else .error .malformed
  else .error .malformed

def directiveHandle (c : Cursor) : Except Error (Directive × Cursor) := do
  let (name, c) ← tagHandle (c.skipWhile (· = ' '))
  if c.sees (· = ' ') then
    let (lead, c) ← uri (c.skipWhile (· = ' '))
    if endOr isTagEnd c.peek then return (.handle name lead, c) else .error .malformed
  else .error .malformed

/-- A directive up to the end of its line. -/
def directive (c : Cursor) : Except Error (Directive × Cursor) := do
  let (name, c) := c.next.span isWordChar
  if name.isEmpty || !endOr isTagEnd c.peek then .error .malformed
  else
    let (d, c) ←
      if name = "YAML".toList then directiveVersion c
      else if name = "TAG".toList then directiveHandle c
      else pure (.other, c.skipWhile (!isBreak ·))
    return (d, ← c.restOfLine)

end ModelTypes.Yaml
