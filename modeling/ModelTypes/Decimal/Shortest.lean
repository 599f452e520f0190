/-!
The fewest decimal digits that read back as a given binary number. A positive number is
`m * 2 ^ q`; its rounding interval reaches halfway to its neighbours and holds its ends exactly
when `m` is even. `shortest` tries grids of 1, 2, … digits and takes from the first grid that
meets the interval the point nearest to the number.
-/

namespace ModelTypes

/-- The number `digits * 10 ^ exponent`. -/
structure Decimal where
  digits : Nat
  exponent : Int
deriving DecidableEq, Repr

namespace Decimal

/-- A number with its rounding interval, all three over the denominator `den`. -/
structure Interval where
  low : Nat
  value : Nat
  high : Nat
  den : Nat
  closed : Bool

/-- The rounding interval of `m * 2 ^ q`. Below a power of two the neighbour is twice as near,
which `narrowBelow` says. -/
def Interval.around (m : Nat) (q : Int) (narrowBelow : Bool) : Interval :=
  let scale := Nat.pow 2 (q - 2).toNat
  { low := (4 * m - if narrowBelow then 1 else 2) * scale
    value := 4 * m * scale
    high := (4 * m + 2) * scale
    den := Nat.pow 2 (2 - q).toNat
    closed := m % 2 == 0 }

/-- Whether `d * 10 ^ g` rounds to the number in the middle. -/
def Interval.covers (i : Interval) (d : Nat) (g : Int) : Bool :=
  let point := d * Nat.pow 10 g.toNat * i.den
  let low := i.low * Nat.pow 10 (-g).toNat
  let high := i.high * Nat.pow 10 (-g).toNat
  if i.closed then low ≤ point && point ≤ high else low < point && point < high

/-- The least `k ≤ fuel` with `10 ^ k * value ≥ den`. -/
def leadingZeros (value den : Nat) : Nat → Nat
  | 0 => 0
  | fuel + 1 => if den ≤ value then 0 else leadingZeros (value * 10) den fuel + 1

/-- The power of ten of the number's first digit. -/
def Interval.magnitude (i : Interval) : Int :=
  if i.den ≤ i.value then ((Nat.toDigits 10 (i.value / i.den)).length : Int) - 1
  else -(leadingZeros i.value i.den 400 : Int)

/-- The point of the grid `10 ^ g` that lies in the interval and nearest to the number; of two
equally near points the even one. -/
def Interval.pick (i : Interval) (g : Int) : Option Nat :=
  let num := i.value * Nat.pow 10 (-g).toNat
  let den := i.den * Nat.pow 10 g.toNat
  let below := num / den
  let rest := num % den
  let nearest := if 2 * rest < den || (2 * rest == den && below % 2 == 0) then below else below + 1
  let other := if nearest == below then below + 1 else below
  if i.covers nearest g then some nearest else if i.covers other g then some other else none

def trim (digits : Nat) (exponent : Int) : Nat → Decimal
  | 0 => ⟨digits, exponent⟩
  | fuel + 1 =>
    if digits ≠ 0 ∧ digits % 10 = 0 then trim (digits / 10) (exponent + 1) fuel
    else ⟨digits, exponent⟩

/-- Seventeen digits always suffice for a 64-bit number. -/
def Interval.shortest (i : Interval) : Decimal :=
  let k := i.magnitude
  let hit := (List.range 17).findSome? fun (n : Nat) =>
    (i.pick (k - n)).map fun d => (d, k - (n : Int))
  match hit with
  | some (d, g) => trim d g 20
  | none => ⟨0, 0⟩

end Decimal
end ModelTypes
