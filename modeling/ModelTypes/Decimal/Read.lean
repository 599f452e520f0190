import ModelTypes.Decimal.Double
/-!
Reading decimal literals: a sign, digits with an optional point, an optional power of ten.
Underscores between digits do not count.
-/

namespace ModelTypes

/-- The number that decimal digits write, underscores left out. -/
def digitsValue (digits : List Char) : Nat :=
  digits.foldl (fun n c => if c = '_' then n else n * 10 + (c.toNat - '0'.toNat)) 0

def takeDigits (cs : List Char) : List Char × List Char :=
  cs.span fun c => c.isDigit || c = '_'

/-- The sign in front of a number, and what follows it. -/
def takeSign : List Char → Bool × List Char
  | '-' :: rest => (true, rest)
  | '+' :: rest => (false, rest)
  | rest => (false, rest)

/-- The power of ten at the end of a literal. -/
def readExponent : List Char → Option Int
  | [] => some 0
  | c :: rest =>
    if c = 'e' || c = 'E' then
      let (negative, digits) := takeSign rest
      if !digits.isEmpty && digits.all Char.isDigit then
        let n : Int := digitsValue digits
        some (if negative then -n else n)
      else none
    else none

namespace Double

/-- A number without its sign. -/
def readMagnitude (negative : Bool) (cs : List Char) : Option Double :=
  let (whole, rest) := takeDigits cs
  let (fraction, rest) := match rest with
    | '.' :: rest => takeDigits rest
    | rest => ([], rest)
  let digits := (whole ++ fraction).filter (· != '_')
  if digits.isEmpty then none
  else (readExponent rest).map fun e =>
    ofDecimal negative (digitsValue digits) (e - (fraction.filter (· != '_')).length)

def read? (text : String) : Option Double :=
  let (negative, cs) := takeSign text.toList
  let word := (String.ofList cs).toLower
  if word == "nan" then some nan
  else if word == "inf" || word == "infinity" then some (infinity negative)
  else readMagnitude negative cs

end Double
end ModelTypes
