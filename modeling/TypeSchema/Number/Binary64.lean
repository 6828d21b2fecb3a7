/-!
# Binary64 numbers

A binary64 number is kept as its 64 bits, so that equality is equality of bits: the two zeros
differ and a NaN equals itself. A finite number is `±significand · 2 ^ exponent`. Every result that
is not itself a binary64 number is a ratio of naturals rounded once to the nearest one, a tie going
to the even significand.
-/

namespace TypeSchema

structure Binary64 where
  bits : UInt64
  deriving DecidableEq

namespace Binary64

def magnitude (x : Binary64) : Nat := x.bits.toNat % Nat.pow 2 63

/-- The magnitude of the two infinities; NaNs lie above. -/
def infiniteMagnitude : Nat := 0x7FF * Nat.pow 2 52

def isNegative (x : Binary64) : Bool := Nat.pow 2 63 ≤ x.bits.toNat

def isFinite (x : Binary64) : Bool := x.magnitude < infiniteMagnitude

def isNaN (x : Binary64) : Bool := infiniteMagnitude < x.magnitude

def isZero (x : Binary64) : Bool := x.magnitude = 0

/-- The significand of a finite number, below `2 ^ 53`. -/
def significand (x : Binary64) : Nat :=
  if x.magnitude < Nat.pow 2 52 then x.magnitude
  else x.magnitude % Nat.pow 2 52 + Nat.pow 2 52

/-- The exponent of a finite number, at least `-1074`. -/
def exponent (x : Binary64) : Int :=
  (max (x.magnitude / Nat.pow 2 52) 1 : Nat) - 1075

def ofMagnitude (negative : Bool) (magnitude : Nat) : Binary64 :=
  ⟨UInt64.ofNat (magnitude + if negative then Nat.pow 2 63 else 0)⟩

def infinity (negative : Bool) : Binary64 := ofMagnitude negative infiniteMagnitude

def nan : Binary64 := ofMagnitude false (0x7FF8 * Nat.pow 2 48)

/-- The quotient rounded to the nearest natural, a tie to the even one. -/
def roundDiv (num den : Nat) : Nat :=
  let quotient := num / den
  let twice := 2 * (num % den)
  if twice < den then quotient
  else if den < twice then quotient + 1
  else quotient + quotient % 2

/-- `num / (den * 2 ^ e)` as a pair of numerator and denominator. -/
def scaleDown (num den : Nat) (e : Int) : Nat × Nat :=
  (num * Nat.pow 2 (-e).toNat, den * Nat.pow 2 e.toNat)

/-- The exponent with which a positive ratio has a significand of 53 bits, or the least one. -/
def exponentOf (num den : Nat) : Int :=
  let estimate : Int := Nat.log2 num - Nat.log2 den - 53
  let scaled := scaleDown num den estimate
  max (if scaled.1 < Nat.pow 2 53 * scaled.2 then estimate else estimate + 1) (-1074)

/-- The binary64 number nearest to `±num / den`. A rounded significand of `2 ^ 53` carries into
the exponent field, and what passes the largest finite number becomes infinite. -/
def ofRatio (negative : Bool) (num den : Nat) : Binary64 :=
  if num = 0 then ofMagnitude negative 0
  else
    let e := exponentOf num den
    let scaled := scaleDown num den e
    let magnitude := (e + 1074).toNat * Nat.pow 2 52 + roundDiv scaled.1 scaled.2
    ofMagnitude negative (min magnitude infiniteMagnitude)

/-- The binary64 number nearest to `±digits · 10 ^ e`, where `count` is the number of decimal
places of `digits` without leading zeros. Magnitudes far outside the range are decided by their
place alone. -/
def ofDecimal (negative : Bool) (digits count : Nat) (e : Int) : Binary64 :=
  if digits = 0 then ofMagnitude negative 0
  else if 400 < count + e then infinity negative
  else if count + e < -400 then ofMagnitude negative 0
  else ofRatio negative (digits * Nat.pow 10 e.toNat) (Nat.pow 10 (-e).toNat)

def neg (x : Binary64) : Binary64 := ofMagnitude (!x.isNegative) x.magnitude

/-- A finite number as a fraction whose denominator is a power of two. -/
def numerator (x : Binary64) : Int :=
  let scaled := x.significand * Nat.pow 2 x.exponent.toNat
  if x.isNegative then -(scaled : Int) else scaled

@[inherit_doc numerator]
def denominator (x : Binary64) : Nat := Nat.pow 2 (-x.exponent).toNat

def succ (x : Binary64) : Binary64 :=
  if x.isFinite then
    let sum := x.numerator + x.denominator
    ofRatio (sum < 0) sum.natAbs x.denominator
  else x

/-- The integer that a finite number equals, if there is one. -/
def toInt? (x : Binary64) : Option Int :=
  if x.isFinite && x.numerator % x.denominator = 0 then some (x.numerator / x.denominator)
  else none

def truncate? (x : Binary64) : Option Int :=
  if x.isFinite then some (x.numerator.tdiv x.denominator) else none

end Binary64

end TypeSchema
