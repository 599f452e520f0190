/-!
The place of a reader in a YAML text, and the classes of characters by which YAML text is cut up.
Line ends are single characters here: line feeds and the three further breaks of Unicode.
-/

namespace ModelTypes.Yaml

/-- Why a text gives no data. All but `malformed` are texts that keep to the grammar but write
something that does not exist: a character or number or date (`noValue`), a character beyond 31 bits
(`tooLarge`), a truth value (`noBool`), a number (`noDigits`), a point in time (`noTimestamp`). -/
inductive Error where
  | malformed
  | noValue
  | tooLarge
  | noBool
  | noDigits
  | noTimestamp
deriving DecidableEq, Repr

/-! ## Characters -/

/-- Characters that a YAML text may hold. -/
def isAllowed (c : Char) : Bool :=
  let n := c.toNat
  n = 0x09 || n = 0x0a || n = 0x0d || (0x20 ≤ n && n ≤ 0x7e) || n = 0x85
    || (0xa0 ≤ n && n ≤ 0xd7ff) || (0xe000 ≤ n && n ≤ 0xfffd) || 0x10000 ≤ n

def isBreak (c : Char) : Bool := c = '\n' || c = '\u0085' || c = '\u2028' || c = '\u2029'

/-- A blank or a break. -/
def isSpace (c : Char) : Bool := c = ' ' || c = '\t' || isBreak c

def isWordChar (c : Char) : Bool := c.isAlphanum || c = '-' || c = '_'

def isHexDigit (c : Char) : Bool := c.isDigit || ('a' ≤ c && c ≤ 'f') || ('A' ≤ c && c ≤ 'F')

def hexValue (cs : List Char) : Nat :=
  cs.foldl (fun n c =>
    n * 16 + (if c.isDigit then c.toNat - 48 else c.toLower.toNat - 87)) 0

/-- Whether a character, or the end of the text, is of a class. The end is of every class here. -/
def endOr (p : Char → Bool) : Option Char → Bool
  | none => true
  | some c => p c

/-! ## Cursors -/

/-- What is left of a text, and where it starts. -/
structure Cursor where
  rest : List Char
  index : Nat := 0
  line : Nat := 0
  column : Nat := 0

namespace Cursor

def peek (c : Cursor) (n : Nat := 0) : Option Char := c.rest[n]?

/-- Whether the next character is of a class; the end is of none. -/
def sees (c : Cursor) (p : Char → Bool) (n : Nat := 0) : Bool := (c.peek n).any p

def atEnd (c : Cursor) : Bool := c.rest.isEmpty

/-- The cursor behind the next character. A byte order mark takes no column. -/
def next (c : Cursor) : Cursor :=
  match c.rest with
  | [] => c
  | ch :: rest =>
    if isBreak ch then ⟨rest, c.index + 1, c.line + 1, 0⟩
    else ⟨rest, c.index + 1, c.line, if ch = '\ufeff' then c.column else c.column + 1⟩

def skip (c : Cursor) : Nat → Cursor
  | 0 => c
  | n + 1 => c.next.skip n

/-- The longest stretch of characters of a class, and the cursor behind it. -/
def span (c : Cursor) (p : Char → Bool) : List Char × Cursor :=
  let word := c.rest.takeWhile p
  (word, c.skip word.length)

def skipWhile (c : Cursor) (p : Char → Bool) : Cursor := (c.span p).2

/-- Takes a line break, if there is one; the two that end ordinary lines read as a line feed. -/
def takeBreak (c : Cursor) : Option Char × Cursor :=
  match c.peek with
  | some ch =>
    if isBreak ch then (some (if ch = '\u0085' then '\n' else ch), c.next) else (none, c)
  | none => (none, c)

/-- Whether three characters and a space or the end come next. -/
def seesMark (c : Cursor) (ch : Char) : Bool :=
  c.rest.take 3 == [ch, ch, ch] && endOr isSpace (c.peek 3)

/-- Whether a line that separates documents comes next, given that a line starts here. -/
def seesSeparator (c : Cursor) : Bool := c.seesMark '-' || c.seesMark '.'

/-- Goes past blanks and a comment up to the line break or the end, where nothing else may be. -/
def restOfLine (c : Cursor) : Except Error Cursor :=
  let c := c.skipWhile (· = ' ')
  let c := if c.sees (· = '#') then c.skipWhile (!isBreak ·) else c
  if endOr isBreak c.peek then .ok c.takeBreak.2 else .error .malformed

end Cursor
end ModelTypes.Yaml
