import ModelTypes.Decimal.Read
import ModelTypes.Path
import ModelTypes.Yaml.Scalar
/-!
What scalars stand for. A plain scalar without a tag is a number, a date or the like if it is
written like one; a tag asks for a kind of data, and then the text has to write such data.
-/

namespace ModelTypes.Yaml

/-- What a tag asks for. `merge` and `value` are the tags of the keys `<<` and `=`. -/
inductive Tag where
  | null
  | bool
  | int
  | float
  | binary
  | timestamp
  | str
  | sequence
  | mapping
  | set
  | orderedMap
  | pairs
  | merge
  | value
  | other (name : String)
deriving DecidableEq, Repr

def coreTags : List (String × Tag) :=
  [("null", .null), ("bool", .bool), ("int", .int), ("float", .float), ("binary", .binary),
   ("timestamp", .timestamp), ("str", .str), ("seq", .sequence), ("map", .mapping), ("set", .set),
   ("omap", .orderedMap), ("pairs", .pairs), ("merge", .merge), ("value", .value)]

/-- Where the full names of the core tags start. -/
def coreLead : String := "tag:yaml.org,2002:"

def Tag.ofName (name : String) : Tag :=
  if coreLead.toList.isPrefixOf name.toList then
    (coreTags.lookup (String.ofList (name.toList.drop coreLead.length))).getD (.other name)
  else .other name

/-- The data of a scalar. -/
inductive Datum where
  | null
  | bool (b : Bool)
  | int (n : Int)
  | float (d : Double)
  | str (t : ScalarText)
  | bytes (data : List UInt8)
  | date
  | datetime
deriving DecidableEq, Repr

/-! ## Numbers -/

def boolWords : List (String × Bool) :=
  [("yes", true), ("no", false), ("true", true), ("false", false), ("on", true), ("off", false)]

/-- Words may be written small, with a capital, or in capitals. -/
def spellings (word : String) : List String := [word, word.capitalize, word.toUpper]

def dropSign : List Char → List Char
  | '-' :: rest => rest
  | '+' :: rest => rest
  | cs => cs

def isDigitOrBar (c : Char) : Bool := c.isDigit || c = '_'

/-- A digit, and then digits and underscores. -/
def isDigits : List Char → Bool
  | [] => false
  | c :: rest => c.isDigit && rest.all isDigitOrBar

/-- A digit, or two of which the first is less than 6. -/
def isSixtieth : List Char → Bool
  | [a] => a.isDigit
  | [a, b] => a.isDigit && a ≤ '5' && b.isDigit
  | _ => false

def isExponent : List Char → Bool
  | [] => true
  | e :: sign :: digits =>
    (e = 'e' || e = 'E') && (sign = '-' || sign = '+') && !digits.isEmpty && digits.all Char.isDigit
  | _ => false

/-- A point, digits and an exponent behind a number, or in front of one that has a first digit. -/
def isFraction (needsDigit : Bool) : List Char → Bool
  | '.' :: rest =>
    let (digits, rest) := rest.span isDigitOrBar
    (!needsDigit || (digits.head?.any Char.isDigit)) && isExponent rest
  | _ => false

def writesFloat (cs : List Char) : Bool :=
  let number := dropSign cs
  let (digits, rest) := number.span isDigitOrBar
  let parts := splitChars ':' number
  let (last, point) := (parts.getLast?.getD []).span (· != '.')
  (isDigits digits && isFraction false rest)
    || isFraction true cs
    || (2 ≤ parts.length && isDigits (parts.headD []) && (parts.drop 1).dropLast.all isSixtieth
        && isSixtieth last && point.head? = some '.' && (point.drop 1).all isDigitOrBar)
    || (spellings "inf").any (fun w => number = '.' :: w.toList)
    || [".nan", ".NaN", ".NAN"].any fun w => cs = w.toList

def writesInt (cs : List Char) : Bool :=
  match dropSign cs with
  | ['0'] => true
  | '0' :: 'b' :: rest => !rest.isEmpty && rest.all fun c => c = '0' || c = '1' || c = '_'
  | '0' :: 'x' :: rest => !rest.isEmpty && rest.all fun c => isHexDigit c || c = '_'
  | '0' :: rest => rest.all fun c => ('0' ≤ c && c ≤ '7') || c = '_'
  | number =>
    match splitChars ':' number with
    | first :: sixtieths => isDigits first && sixtieths.all isSixtieth
    | [] => false

/-! ## Points in time -/

/-- A number of at least `least` and at most `most` digits. -/
def takeNumber (least most : Nat) (cs : List Char) : Option (Nat × List Char) :=
  let digits := (cs.take most).takeWhile Char.isDigit
  if least ≤ digits.length then some (digitsValue digits, cs.drop digits.length) else none

def takeChar (c : Char) (cs : List Char) : Option (List Char) :=
  match cs with
  | d :: rest => if d = c then some rest else none
  | [] => none

/-- A time of a day, with the minutes that it is ahead of or behind universal time. -/
structure TimeOfDay where
  hour : Nat
  minute : Nat
  second : Nat
  offset : Nat := 0

structure Timestamp where
  year : Nat
  month : Nat
  day : Nat
  time : Option TimeOfDay := none

def takeDate (cs : List Char) : Option (Timestamp × List Char) := do
  let (year, cs) ← takeNumber 4 4 cs
  let (month, cs) ← takeNumber 1 2 (← takeChar '-' cs)
  let (day, cs) ← takeNumber 1 2 (← takeChar '-' cs)
  return (⟨year, month, day, none⟩, cs)

/-- The offset at the end of a time, in minutes. -/
def readOffset (cs : List Char) : Option Nat :=
  match cs with
  | [] => some 0
  | cs =>
    match cs.dropWhile isBlank with
    | ['Z'] => some 0
    | sign :: cs =>
      if sign = '-' || sign = '+' then do
        let (hours, cs) ← takeNumber 1 2 cs
        if cs.isEmpty then return hours * 60
        else
          let (minutes, cs) ← takeNumber 2 2 (← takeChar ':' cs)
          if cs.isEmpty then return hours * 60 + minutes else none
      else none
    | [] => none

def readTime (cs : List Char) : Option TimeOfDay := do
  let (hour, cs) ← takeNumber 1 2 cs
  let (minute, cs) ← takeNumber 2 2 (← takeChar ':' cs)
  let (second, cs) ← takeNumber 2 2 (← takeChar ':' cs)
  let cs := match cs with
    | '.' :: rest => rest.dropWhile Char.isDigit
    | cs => cs
  return ⟨hour, minute, second, ← readOffset cs⟩

/-- A date, or a date and a time with a `T` or blanks in between. -/
def readTimestamp (cs : List Char) : Option Timestamp := do
  let (date, cs) ← takeDate cs
  match cs with
  | [] => return date
  | c :: rest =>
    if c = 'T' || c = 't' then return { date with time := some (← readTime rest) }
    else if isBlank c then return { date with time := some (← readTime (rest.dropWhile isBlank)) }
    else none

/-- Dates without a time are recognised if month and day have two digits. -/
def writesTimestamp (cs : List Char) : Bool :=
  match readTimestamp cs with
  | some t => t.time.isSome || cs.length = 10
  | none => false

def daysIn (year month : Nat) : Nat :=
  if month = 2 then
    if year % 4 = 0 && (year % 100 != 0 || year % 400 = 0) then 29 else 28
  else if [4, 6, 9, 11].contains month then 30 else 31

def TimeOfDay.isPossible (t : TimeOfDay) : Bool :=
  t.hour < 24 && t.minute < 60 && t.second < 60 && t.offset < 1440

def Timestamp.isPossible (t : Timestamp) : Bool :=
  1 ≤ t.year && 1 ≤ t.month && t.month ≤ 12 && 1 ≤ t.day && t.day ≤ daysIn t.year t.month
    && t.time.all TimeOfDay.isPossible

/-! ## Plain scalars -/

/-- What a plain scalar is by the way it is written. -/
def Tag.ofPlain (text : String) : Tag :=
  let cs := text.toList
  if (boolWords.flatMap fun w => spellings w.1).contains text then .bool
  else if writesFloat cs then .float
  else if writesInt cs then .int
  else if text == "<<" then .merge
  else if text == "" || text == "~" || (spellings "null").contains text then .null
  else if writesTimestamp cs then .timestamp
  else if text == "=" then .value
  else if ["!", "&", "*"].contains text then .other text
  else .str

/-! ## Reading -/

/-- The white space of Unicode, and the separators among the control characters. -/
def isWhite (c : Char) : Bool :=
  let n := c.toNat
  (9 ≤ n && n ≤ 13) || (28 ≤ n && n ≤ 32) || (0x2000 ≤ n && n ≤ 0x200a)
    || [0x85, 0xa0, 0x1680, 0x2028, 0x2029, 0x202f, 0x205f, 0x3000].contains n

def trim (cs : List Char) : List Char :=
  ((cs.dropWhile isWhite).reverse.dropWhile isWhite).reverse

/-- The number that a text of a base writes, with white space around it, a sign and the mark of the
base allowed. -/
def readInt (base : Nat) (cs : List Char) : Option Int :=
  let (negative, digits) := takeSign (trim cs)
  let mark := if base = 2 then ['0', 'b'] else if base = 8 then ['0', 'o']
    else if base = 16 then ['0', 'x'] else []
  let digits := if !mark.isEmpty && mark.isPrefixOf (digits.map Char.toLower) then digits.drop 2
    else digits
  if !digits.isEmpty && digits.all fun c => isHexDigit c && hexValue [c] < base then
    let n : Int := digits.foldl (fun n c => n * base + hexValue [c]) 0
    some (if negative then -n else n)
  else none

/-- Numbers between colons count sixty times as much as the number to their right. -/
def readSixtieths (parts : List (List Char)) : Option Int :=
  parts.foldlM (fun n part => (readInt 10 part).map (n * 60 + ·)) 0

def readIntegerText (cs : List Char) : Except Error Int :=
  let cs := cs.filter (· != '_')
  let (negative, number) := takeSign cs
  let signed (n : Option Int) : Except Error Int :=
    match n with
    | some n => .ok (if negative then -n else n)
    | none => .error .noValue
  match number with
  | [] => .error .noDigits
  | ['0'] => .ok 0
  | '0' :: 'b' :: rest => signed (readInt 2 rest)
  | '0' :: 'x' :: rest => signed (readInt 16 rest)
  | '0' :: _ => signed (readInt 8 number)
  | number =>
    if number.contains ':' then signed (readSixtieths (splitChars ':' number))
    else signed (readInt 10 number)

def readFloatText (cs : List Char) : Except Error Double :=
  let cs := (cs.filter (· != '_')).map Char.toLower
  let (negative, number) := takeSign cs
  let signed (x : Float) : Double := ⟨(if negative then -x else x).toBits⟩
  let part (p : List Char) : Option Float := (Double.read? (String.ofList (trim p))).map fun d =>
    Float.ofBits d.bits
  if cs.isEmpty then .error .noDigits
  else if number = ".inf".toList then .ok (.infinity negative)
  else if number = ".nan".toList then .ok .nan
  else
    let sum := (splitChars ':' number).reverse.foldlM (fun (sum, base) p =>
      (part p).map fun x => (sum + x * Float.ofNat base, base * 60)) ((0 : Float), 1)
    match sum with
    | some (sum, _) => .ok (signed sum)
    | none => .error .noValue

/-! ## Binary data -/

def sixBits? (c : Char) : Option Nat :=
  if 'A' ≤ c && c ≤ 'Z' then some (c.toNat - 65)
  else if 'a' ≤ c && c ≤ 'z' then some (c.toNat - 71)
  else if c.isDigit then some (c.toNat + 4)
  else if c = '+' then some 62
  else if c = '/' then some 63
  else none

/-- Bytes written with six bits to a character. The bits not yet written are held back, with the
number of characters of the present group of four; other characters are passed over, and enough
padding ends the data. -/
def readSixBits (held group pads : Nat) : List Char → Option (List UInt8)
  | [] => if group = 0 then some [] else none
  | c :: rest =>
    if c = '=' then
      if group < 2 then readSixBits held group pads rest
      else if 4 ≤ group + pads + 1 then some []
      else readSixBits held group (pads + 1) rest
    else
      match sixBits? c with
      | none => readSixBits held group pads rest
      | some n =>
        let bits := held * 64 + n
        if group = 0 then readSixBits n 1 0 rest
        else
          let spare := 6 - 2 * group
          (readSixBits (bits % Nat.pow 2 spare) ((group + 1) % 4) 0 rest).map
            (UInt8.ofNat (bits / Nat.pow 2 spare) :: ·)

/-- The data that a text gives under a tag for scalars. -/
def Datum.read (tag : Tag) (t : ScalarText) : Except Error Datum :=
  let cs := t.text.toList
  match tag with
  | .null => .ok .null
  | .bool =>
    match boolWords.lookup t.text.toLower with
    | some b => .ok (.bool b)
    | none => .error .noBool
  | .int => Datum.int <$> readIntegerText cs
  | .float => Datum.float <$> readFloatText cs
  | .binary =>
    if cs.all (·.toNat < 128) then
      match readSixBits 0 0 0 cs with
      | some data => .ok (.bytes data)
      | none => .error .malformed
    else .error .malformed
  | .timestamp =>
    match readTimestamp cs with
    | none => .error .noTimestamp
    | some stamp =>
      if stamp.isPossible then .ok (if stamp.time.isSome then .datetime else .date)
      else .error .noValue
  | .str => .ok (.str t)
  | _ => .error .malformed

end ModelTypes.Yaml
