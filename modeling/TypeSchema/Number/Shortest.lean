import TypeSchema.Number.Binary64

/-!
# Shortest decimal digits

The decimal digits of a positive binary64 number are the fewest that read back as the same number,
and of those the nearest to it. The reals that round to the number form an interval around it whose
ends belong to it exactly when the significand is even. For one, two, … seventeen digits the two
neighbours of the number on the decimal grid of that many digits are tested; the first grid with a
neighbour in the interval gives the digits.
-/

namespace TypeSchema.Binary64

structure Decimal where
  digits : Nat
  place : Int
  deriving DecidableEq, Inhabited

/-- A positive finite number on the grid of multiples of `10 ^ place`: the number is
`unit * significand / step` grid steps. -/
structure Grid where
  unit : Nat
  step : Nat

def gridAt (x : Binary64) (place : Int) : Grid where
  unit := Nat.pow 2 x.exponent.toNat * Nat.pow 10 (-place).toNat
  step := Nat.pow 2 (-x.exponent).toNat * Nat.pow 10 place.toNat

/-- Whether the grid point of the given index rounds to the number. Below a power of two the
neighbouring number is only half as far away. -/
def reads (x : Binary64) (place : Int) (index : Nat) : Bool :=
  let grid := x.gridAt place
  let m := x.significand
  let below := if m = Nat.pow 2 52 ∧ x.exponent ≠ -1074 then 1 else 2
  let low := (4 * m - below) * grid.unit
  let high := (4 * m + 2) * grid.unit
  let point := 4 * index * grid.step
  if m % 2 = 0 then low ≤ point && point ≤ high else low < point && point < high

/-- The neighbour of the number on a grid that reads back as the number and is the nearer of the
two, a tie going to the even one. -/
def neighbour? (x : Binary64) (place : Int) : Option Nat :=
  let grid := x.gridAt place
  let lower := x.significand * grid.unit / grid.step
  let upper := lower + 1
  match x.reads place lower, x.reads place upper with
  | false, false => none
  | true, false => some lower
  | false, true => some upper
  | true, true =>
    let twice := 2 * (x.significand * grid.unit % grid.step)
    if twice < grid.step then some lower
    else if grid.step < twice then some upper
    else some (if lower % 2 = 0 then lower else upper)

def leadingPlace (x : Binary64) : Int :=
  let binary : Int := Nat.log2 x.significand + x.exponent
  let estimate := Int.fdiv (binary * 30103) 100000
  let grid := x.gridAt (estimate + 1)
  if grid.step ≤ x.significand * grid.unit then estimate + 1 else estimate

/-- Tries the grids of `count`, `count + 1`, … digits. -/
def searchDigits (x : Binary64) (leading : Int) : (fuel count : Nat) → Option Decimal
  | 0, _ => none
  | fuel + 1, count =>
    let place := leading - count + 1
    match x.neighbour? place with
    | some digits => some ⟨digits, place⟩
    | none => searchDigits x leading fuel (count + 1)

/-- The shortest decimal of a positive finite number. Seventeen digits always suffice. -/
def shortest (x : Binary64) : Decimal :=
  (searchDigits x x.leadingPlace 17 1).getD ⟨0, 0⟩

/-! ### Layout -/

/-- How a decimal is set out: which exponents are written in positional notation, the least number
of exponent digits, and the words for values that are no numbers. -/
structure Layout where
  leastPositional : Int
  greatestPositional : Int
  exponentDigits : Nat
  nan : String
  infinity : String

/-- Trailing zeros belong to the place, not to the digits. -/
def Decimal.strip : (fuel : Nat) → Decimal → Decimal
  | 0, d => d
  | fuel + 1, d =>
    if d.digits % 10 = 0 ∧ d.digits ≠ 0 then Decimal.strip fuel ⟨d.digits / 10, d.place + 1⟩ else d

def zeros (n : Nat) : List Char := List.replicate n '0'

/-- A decimal in positional notation, with at least one digit on each side of the point. -/
def positional (digits : List Char) (place : Int) : List Char :=
  if 0 ≤ place then digits ++ zeros place.toNat ++ ['.', '0']
  else
    let fraction := (-place).toNat
    if fraction < digits.length then
      digits.take (digits.length - fraction) ++ '.' :: digits.drop (digits.length - fraction)
    else '0' :: '.' :: zeros (fraction - digits.length) ++ digits

/-- A decimal with one digit before the point and a signed exponent. -/
def scientific (exponentDigits : Nat) (digits : List Char) (exponent : Int) : List Char :=
  let power := Nat.toDigits 10 exponent.natAbs
  let point := if digits.length ≤ 1 then [] else '.' :: digits.drop 1
  digits.take 1 ++ point ++ 'e' :: (if exponent < 0 then '-' else '+') ::
    zeros (exponentDigits - power.length) ++ power

def render (layout : Layout) (x : Binary64) : String :=
  let sign := if x.isNegative then "-" else ""
  if x.isNaN then layout.nan
  else if !x.isFinite then sign ++ layout.infinity
  else if x.isZero then sign ++ "0.0"
  else
    let d := Decimal.strip 17 x.shortest
    let digits := Nat.toDigits 10 d.digits
    let exponent := d.place + digits.length - 1
    sign ++ String.ofList
      (if layout.leastPositional ≤ exponent ∧ exponent ≤ layout.greatestPositional then
        positional digits d.place
      else scientific layout.exponentDigits digits exponent)

end TypeSchema.Binary64
