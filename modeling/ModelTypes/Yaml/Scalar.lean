import ModelTypes.Yaml.Cursor
/-!
The texts of scalars: plain, quoted, and blocks of lines. Within a scalar one line break reads as a
blank, and of several all but the first are kept; literal blocks keep them all.
-/

namespace ModelTypes.Yaml

/-- A character that an escape can write; nothing stands for half of a surrogate pair. -/
abbrev Unit16 := Option Char

/-- The text of a scalar, and whether all of it is characters. -/
structure ScalarText where
  text : String
  isText : Bool := true
deriving DecidableEq, Repr

def ScalarText.ofChars (cs : List Char) : ScalarText := { text := String.ofList cs }

def ScalarText.ofUnits (units : List Unit16) : ScalarText :=
  { text := String.ofList (units.map (·.getD '\ufffd')), isText := units.all (·.isSome) }

def isBlank (c : Char) : Bool := c = ' ' || c = '\t'

/-- How line breaks join two lines. -/
def joint (first : Char) (others : List Char) : List Char :=
  (if first != '\n' then [first] else if others.isEmpty then [' '] else []) ++ others

/-! ## Plain scalars -/

def isFlowMark (c : Char) : Bool := [',', '[', ']', '{', '}'].contains c

/-- Whether a plain scalar ends before a character, given the one behind it. -/
def plainEnds (flow : Bool) (ch : Char) (behind : Option Char) : Bool :=
  isSpace ch
    || (ch = ':' && endOr (fun d => isSpace d || (flow && isFlowMark d)) behind)
    || (flow && (ch = '?' || isFlowMark ch))

/-- A stretch of plain text at the start of a text. -/
def plainWord (flow : Bool) : List Char → List Char
  | [] => []
  | ch :: rest => if plainEnds flow ch rest.head? then [] else ch :: plainWord flow rest

/-- Blank lines and indentation after a line break, and whether a separator of documents follows. -/
def plainBreaks : Nat → Cursor → List Char × Bool × Cursor
  | 0, c => ([], false, c)
  | fuel + 1, c =>
    if c.sees (· = ' ') then plainBreaks fuel c.next
    else
      match c.takeBreak with
      | (some b, c) =>
        if c.seesSeparator then ([b], true, c)
        else
          let (others, separator, c) := plainBreaks fuel c
          (b :: others, separator, c)
      | (none, c) => ([], false, c)

/-- What stands between two stretches of plain text: the text it reads as, if the scalar can go on
there, and whether lines were broken. -/
def plainGap (c : Cursor) : Option (List Char) × Bool × Cursor :=
  let (blanks, c) := c.span (· = ' ')
  match c.takeBreak with
  | (some b, c) =>
    if c.seesSeparator then (none, true, c)
    else
      let (others, separator, c) := plainBreaks c.rest.length c
      (if separator then none else some (joint b others), true, c)
  | (none, c) => (if blanks.isEmpty then none else some blanks, false, c)

/-- The text of a plain scalar, and whether the last gap in or after it broke the line. -/
def plainText (flow : Bool) (indent : Int) : Nat → Cursor → List Char × Bool × Cursor
  | 0, c => ([], false, c)
  | fuel + 1, c =>
    let word := plainWord flow c.rest
    if c.sees (· = '#') || word.isEmpty then ([], false, c)
    else
      match plainGap (c.skip word.length) with
      | (none, broke, c) => (word, broke, c)
      | (some gap, broke, c) =>
        if c.sees (· = '#') || (!flow && (c.column : Int) < indent)
            || (plainWord flow c.rest).isEmpty then
          (word, broke, c)
        else
          let (rest, broke, c) := plainText flow indent fuel c
          (word ++ gap ++ rest, broke, c)

/-! ## Quoted scalars -/

/-- The characters that escapes of one letter write. -/
def escapes : List (Char × Char) :=
  [('0', '\x00'), ('a', '\x07'), ('b', '\x08'), ('t', '\t'), ('\t', '\t'), ('n', '\n'),
   ('v', '\x0b'), ('f', '\x0c'), ('r', '\x0d'), ('e', '\x1b'), (' ', ' '), ('"', '"'),
   ('\\', '\\'), ('/', '/'), ('N', '\u0085'), ('_', '\u00a0'), ('L', '\u2028'), ('P', '\u2029')]

/-- How many digits follow the letters of numeric escapes. -/
def escapeWidths : List (Char × Nat) := [('x', 2), ('u', 4), ('U', 8)]

/-- The character of a number. -/
def unitOf (n : Nat) : Except Error Unit16 :=
  if n < 0x110000 then .ok (if 0xd800 ≤ n && n ≤ 0xdfff then none else some (Char.ofNat n))
  else .error (if n < 0x80000000 then .noValue else .tooLarge)

/-- Blank lines inside quotes. A separator of documents may not stand there. -/
def quotedBreaks : Nat → Cursor → Except Error (List Char × Cursor)
  | 0, _ => .error .malformed
  | fuel + 1, c =>
    if c.seesSeparator then .error .malformed
    else
      match (c.skipWhile isBlank).takeBreak with
      | (some b, c) => do
        let (others, c) ← quotedBreaks fuel c
        return (b :: others, c)
      | (none, c) => .ok ([], c)

/-- What a backslash writes, from the character behind it. -/
def escape (c : Cursor) : Except Error (List Unit16 × Cursor) :=
  match c.peek with
  | none => .error .malformed
  | some ch =>
    match escapes.lookup ch, escapeWidths.lookup ch with
    | some written, _ => .ok ([some written], c.next)
    | none, some width =>
      let c := c.next
      let digits := c.rest.take width
      if digits.length = width && digits.all isHexDigit then do
        return ([← unitOf (hexValue digits)], c.skip width)
      else .error .malformed
    | none, none =>
      if isBreak ch then do
        let (breaks, c) ← quotedBreaks (c.rest.length + 1) c.next
        return (breaks.map some, c)
      else .error .malformed

def isQuotedChar (ch : Char) : Bool := !(ch = '\'' || ch = '"' || ch = '\\' || isSpace ch)

/-- Quoted text up to a blank, a break or the closing quote. -/
def quotedWord (double : Bool) : Nat → Cursor → Except Error (List Unit16 × Cursor)
  | 0, c => .ok ([], c)
  | fuel + 1, c => do
    let (word, c) := c.span isQuotedChar
    let (more, c) ← (match c.peek with
      | some '\'' =>
        if double then .ok ([some '\''], c.next)
        else if c.peek 1 = some '\'' then .ok ([some '\''], c.skip 2) else .ok ([], c)
      | some '"' => if double then .ok ([], c) else .ok ([some '"'], c.next)
      | some '\\' => if double then escape c.next else .ok ([some '\\'], c.next)
      | _ => .ok ([], c) : Except Error (List Unit16 × Cursor))
    let closes := if double then c.sees (· = '"') else c.sees (· = '\'') && c.peek 1 != some '\''
    if c.atEnd || c.sees isSpace || closes then return (word.map some ++ more, c)
    else
      let (rest, c) ← quotedWord double fuel c
      return (word.map some ++ more ++ rest, c)

/-- What stands between two stretches of quoted text. -/
def quotedGap (c : Cursor) : Except Error (List Char × Cursor) :=
  let (blanks, c) := c.span isBlank
  if c.atEnd then .error .malformed
  else
    match c.takeBreak with
    | (some b, c) => do
      let (others, c) ← quotedBreaks (c.rest.length + 1) c
      return (joint b others, c)
    | (none, c) => .ok (blanks, c)

/-- Quoted text up to and with the closing quote. -/
def quotedText (double : Bool) : Nat → Cursor → Except Error (List Unit16 × Cursor)
  | 0, _ => .error .malformed
  | fuel + 1, c => do
    let (word, c) ← quotedWord double (c.rest.length + 1) c
    if c.sees (· = (if double then '"' else '\'')) then return (word, c.next)
    else
      let (gap, c) ← quotedGap c
      let (rest, c) ← quotedText double fuel c
      return (word ++ gap.map some ++ rest, c)

/-! ## Blocks -/

/-- What becomes of the line breaks at the end of a block. -/
inductive Chomping where
  | strip
  | clip
  | keep
deriving DecidableEq, Repr

def chomping? (c : Cursor) : Option Chomping × Cursor :=
  match c.peek with
  | some '+' => (some .keep, c.next)
  | some '-' => (some .strip, c.next)
  | _ => (none, c)

/-- The indentation that a header gives, if it does; it cannot be 0. -/
def increment? (c : Cursor) : Except Error (Option Nat × Cursor) :=
  match c.peek with
  | some d =>
    if d = '0' then .error .malformed
    else if d.isDigit then .ok (some (d.toNat - 48), c.next) else .ok (none, c)
  | none => .ok (none, c)

/-- The two parts of a header, in either order. -/
def blockHeader (c : Cursor) : Except Error (Chomping × Option Nat × Cursor) := do
  let (chomping, c) := chomping? c
  let (increment, c) ← increment? c
  let (chomping, c) := if chomping.isNone && increment.isSome then chomping? c else (chomping, c)
  if endOr (fun ch => ch = ' ' || isBreak ch) c.peek then
    return (chomping.getD .clip, increment, ← c.restOfLine)
  else .error .malformed

/-- Blank lines before a block, and the most columns that one of the lines is indented by. -/
def blockIndent : Nat → Nat → Cursor → List Char × Nat × Cursor
  | 0, deepest, c => ([], deepest, c)
  | fuel + 1, deepest, c =>
    if c.sees (· = ' ') then blockIndent fuel (max deepest c.next.column) c.next
    else
      match c.takeBreak with
      | (some b, c) =>
        let (others, deepest, c) := blockIndent fuel deepest c
        (b :: others, deepest, c)
      | (none, c) => ([], deepest, c)

/-- Blank lines inside a block, and up to `indent` blanks before the next line. -/
def blockBreaks (indent : Nat) : Nat → Cursor → List Char × Cursor
  | 0, c => ([], c)
  | fuel + 1, c =>
    let blanks := (c.rest.take (indent - c.column)).takeWhile (· = ' ')
    match (c.skip blanks.length).takeBreak with
    | (some b, c) =>
      let (others, c) := blockBreaks indent fuel c
      (b :: others, c)
    | (none, c) => ([], c)

/-- The lines of a block, the last line break, and the breaks behind it. -/
def blockLines (folded : Bool) (indent : Nat) :
    Nat → List Char → Cursor → List Char × List Char × List Char × Cursor
  | 0, breaks, c => ([], [], breaks, c)
  | fuel + 1, breaks, c =>
    let inside (c : Cursor) : Bool := c.column == indent && !c.atEnd
    if inside c then
      let flush := !c.sees isBlank
      let (line, c) := c.span (!isBreak ·)
      let (lineBreak, c) := c.takeBreak
      let (others, c) := blockBreaks indent (c.rest.length + 1) c
      if inside c then
        let between := if folded && lineBreak = some '\n' && flush && !c.sees isBlank then
          (if others.isEmpty then [' '] else []) else lineBreak.toList
        let (rest, last, tail, c) := blockLines folded indent fuel others c
        (breaks ++ line ++ between ++ rest, last, tail, c)
      else (breaks ++ line, lineBreak.toList, others, c)
    else ([], [], breaks, c)

/-- The text of a block, from its header on, inside a collection indented by `indent`. -/
def blockText (folded : Bool) (indent : Int) (c : Cursor) : Except Error (List Char × Cursor) := do
  let (chomping, increment, c) ← blockHeader c
  let least := max 1 (indent + 1).toNat
  let (breaks, indent, c) := match increment with
    | some n =>
      let indent := least + n - 1
      let (breaks, c) := blockBreaks indent (c.rest.length + 1) c
      (breaks, indent, c)
    | none =>
      let (breaks, deepest, c) := blockIndent (c.rest.length + 1) 0 c
      (breaks, max least deepest, c)
  let (lines, last, tail, c) := blockLines folded indent (c.rest.length + 1) breaks c
  return (lines ++ (if chomping = .strip then [] else last)
    ++ (if chomping = .keep then tail else []), c)

end ModelTypes.Yaml
