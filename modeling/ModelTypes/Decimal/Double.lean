import ModelTypes.Decimal.Shortest
/-!
Binary64 numbers as their bits, and the two ways they are written: `Spelling` holds what differs
between the two, everything else is shared.
-/

namespace ModelTypes

/-- A 64-bit floating point number, given by its bits. -/
structure Double where
  bits : UInt64
deriving DecidableEq, Repr

namespace Double

def negative (d : Double) : Bool := d.bits.toNat / Nat.pow 2 63 == 1

def exponentField (d : Double) : Nat := d.bits.toNat / Nat.pow 2 52 % Nat.pow 2 11

def fraction (d : Double) : Nat := d.bits.toNat % Nat.pow 2 52

def isNaN (d : Double) : Bool := d.exponentField == 2047 && d.fraction != 0

def isInfinite (d : Double) : Bool := d.exponentField == 2047 && d.fraction == 0

def isFinite (d : Double) : Bool := d.exponentField != 2047

/-- The `m` of a finite number's magnitude `m * 2 ^ q`. -/
def significand (d : Double) : Nat :=
  if d.exponentField = 0 then d.fraction else d.fraction + Nat.pow 2 52

/-- The `q` of a finite number's magnitude `m * 2 ^ q`. -/
def exponent (d : Double) : Int :=
  if d.exponentField = 0 then -1074 else (d.exponentField : Int) - 1075

def isZero (d : Double) : Bool := d.isFinite && d.significand == 0

/-- The integer that a finite number equals, if it is one. -/
def toInt? (d : Double) : Option Int :=
  if d.isFinite then
    let m := d.significand * Nat.pow 2 d.exponent.toNat
    let den := Nat.pow 2 (-d.exponent).toNat
    if m % den = 0 then
      let n : Int := m / den
      some (if d.negative then -n else n)
    else none
  else none

/-- Equality of numbers: zeros of both signs are equal and NaN equals nothing. -/
def sameNumber (a b : Double) : Bool :=
  if a.isNaN || b.isNaN then false else a.bits == b.bits || (a.isZero && b.isZero)

/-- The number nearest to `digits * 10 ^ exponent`. -/
def ofDecimal (negative : Bool) (digits : Nat) (exponent : Int) : Double :=
  let magnitude := Float.ofScientific digits (exponent < 0) exponent.natAbs
  ⟨(if negative then -magnitude else magnitude).toBits⟩

def infinity (negative : Bool) : Double :=
  ⟨if negative then 0xfff0000000000000 else 0x7ff0000000000000⟩

def nan : Double := ⟨0x7ff8000000000000⟩

/-- The shortest decimal of a finite number's magnitude. -/
def toDecimal (d : Double) : Decimal :=
  if d.significand = 0 then ⟨0, 0⟩
  else (Decimal.Interval.around d.significand d.exponent
    (d.fraction == 0 && 1 < d.exponentField)).shortest

/-- How the values that are no decimal numbers are named. -/
structure Spelling where
  nan : String
  infinity : String

/-- The exponent of powers of ten: always signed, of at least two digits. -/
def exponentText (e : Int) : String :=
  let digits := toString e.natAbs
  (if e < 0 then "e-" else "e+") ++ (if digits.length < 2 then "0" ++ digits else digits)

/-- A decimal is positional while its first digit stands between the fourth place after the point
and the sixteenth before it. -/
def magnitudeText (d : Decimal) : String :=
  let digits := Nat.toDigits 10 d.digits
  let lead : Int := digits.length + d.exponent - 1
  if lead < -4 || 16 ≤ lead then
    let tail := digits.drop 1
    String.ofList (digits.take 1 ++ (if tail.isEmpty then [] else '.' :: tail)) ++ exponentText lead
  else if 0 ≤ d.exponent then
    String.ofList (digits ++ List.replicate d.exponent.toNat '0') ++ ".0"
  else if lead < 0 then
    "0." ++ String.ofList (List.replicate (-lead - 1).toNat '0' ++ digits)
  else
    let whole := (lead + 1).toNat
    String.ofList (digits.take whole ++ '.' :: digits.drop whole)

def text (n : Spelling) (d : Double) : String :=
  if d.isNaN then n.nan
  else
    (if d.negative then "-" else "") ++
      (if d.isInfinite then n.infinity else magnitudeText d.toDecimal)

end Double
end ModelTypes
