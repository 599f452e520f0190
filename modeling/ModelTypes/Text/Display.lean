import ModelTypes.Text.Literal
import ModelTypes.Text.Printable
/-!
Text as messages show it: between single quotes, or double quotes where only those avoid an
escape, with everything unprintable written by its code point.
-/

namespace ModelTypes.Text

/-- The quote that a text with these characters is put in. -/
def displayQuote (single double : Bool) : Char := if single && !double then '"' else '\''

def codePointEscape (n : Nat) : List Char :=
  if n < 0x100 then '\\' :: 'x' :: hexDigits 2 n
  else if n < 0x10000 then '\\' :: 'u' :: hexDigits 4 n
  else '\\' :: 'U' :: hexDigits 8 n

def displayChar (quoteMark c : Char) : List Char :=
  if c = quoteMark || c = '\\' then ['\\', c]
  else if c = '\n' then ['\\', 'n']
  else if c = '\r' then ['\\', 'r']
  else if c = '\t' then ['\\', 't']
  else if isPrintable c then [c]
  else codePointEscape c.toNat

def display (s : String) : String :=
  let cs := s.toList
  let mark := displayQuote (cs.contains '\'') (cs.contains '"')
  String.ofList (mark :: (cs.flatMap (displayChar mark) ++ [mark]))

/-- Bytes are shown as ASCII text, the others by their number. -/
def displayByte (quoteMark : Char) (b : UInt8) : List Char :=
  if b < 0x80 then displayChar quoteMark (Char.ofNat b.toNat) else codePointEscape b.toNat

def displayBytes (data : List UInt8) : String :=
  let mark := displayQuote (data.contains 0x27) (data.contains 0x22)
  String.ofList ('b' :: mark :: (data.flatMap (displayByte mark) ++ [mark]))

end ModelTypes.Text
