import TypeSchema.Number.Basic
import TypeSchema.Text.Blank
import TypeSchema.Text.DecimalDigit

/-!
# Numerals

Positional numerals in a base from two to sixteen, and decimal numerals with a fraction or an
exponent. A digit may come from any script; the letters `a` to `f` are the digits from ten on.
Numerals are read from texts that hold no capital letters and no digit separators.
-/

namespace TypeSchema.Numeral

/-- The value of a digit of a numeral, from any script or a letter from `a` to `f`. -/
def digitValue? (c : Char) : Option Nat :=
  match Text.decimalDigit? c with
  | some d => some d
  | none => if 'a' ≤ c ∧ c ≤ 'f' then some (c.toNat - 'a'.toNat + 10) else none

def digitIn? (base : Nat) (c : Char) : Option Nat :=
  (digitValue? c).filter (· < base)

def digits? (base : Nat) (cs : List Char) : Option (List Nat) :=
  cs.mapM (digitIn? base)

def value (base : Nat) (digits : List Nat) : Nat :=
  digits.foldl (fun n d => n * base + d) 0

/-- A numeral without sign: at least one digit of the base, and nothing else. -/
def natural? (base : Nat) (cs : List Char) : Option Nat :=
  if cs = [] then none else (digits? base cs).map (value base)

/-- Splits a leading sign off; `true` stands for minus. -/
def splitSign : List Char → Bool × List Char
  | '-' :: cs => (true, cs)
  | '+' :: cs => (false, cs)
  | cs => (false, cs)

def applySign (negative : Bool) (n : Nat) : Int :=
  if negative then -n else n

/-- A decimal integer with an optional sign between optional blanks. Leading zeros count towards
the limit on its digits. -/
def decimalInteger? (cs : List Char) : Option Int :=
  let (negative, digits) := splitSign (Text.trimWhile Text.isNumeralBlank cs)
  if Number.digitLimit < digits.length then none
  else (natural? 10 digits).map (applySign negative)

/-- Drops the underscores of a text, each of which has to stand between two digits. -/
def dropSeparators? : List Char → Option (List Char)
  | [] => some []
  | '_' :: _ => none
  | c :: '_' :: rest =>
    if (Text.decimalDigit? c).isSome && (rest.head?.bind Text.decimalDigit?).isSome then
      (dropSeparators? rest).map (c :: ·)
    else none
  | c :: rest => (dropSeparators? rest).map (c :: ·)

inductive IntegerProblem where
  | malformed
  | tooLong (digits : Nat)
  deriving DecidableEq

/-- A decimal integer with an optional sign between optional blanks, where an underscore may stand
between two digits. The digits are counted before anything behind them is looked at. -/
def separatedInteger (cs : List Char) : Except IntegerProblem Int :=
  let (negative, body) := splitSign (Text.trimWhile Text.isNumeralBlank cs)
  let numeral := body.takeWhile fun c => c = '_' || (Text.decimalDigit? c).isSome
  match dropSeparators? numeral with
  | none => .error .malformed
  | some digits =>
    if Number.digitLimit < digits.length then .error (.tooLong digits.length)
    else if numeral.length < body.length then .error .malformed
    else (natural? 10 digits).elim (.error .malformed) fun n => .ok (applySign negative n)

def baseOfLetter? : Char → Option Nat
  | 'x' => some 16
  | 'o' => some 8
  | 'b' => some 2
  | _ => none

def splitBase? : List Char → Option (Nat × List Char)
  | '0' :: letter :: cs => (baseOfLetter? letter).map (·, cs)
  | _ => none

/-- The digits after a base prefix; blanks may follow them. -/
def prefixedInteger? (base : Nat) (cs : List Char) : Option Int :=
  (natural? base (Text.dropEndWhile Text.isNumeralBlank cs)).map fun n => (n : Int)

def splitAt (separator : Char) (cs : List Char) : List Char × Option (List Char) :=
  match cs.dropWhile (· ≠ separator) with
  | [] => (cs, none)
  | _ :: rest => (cs.takeWhile (· ≠ separator), some rest)

/-- The exponent of a decimal numeral: digits after an optional sign, or zero when there is no
exponent. -/
def exponent? : Option (List Char) → Option Int
  | none => some 0
  | some cs =>
    let (negative, digits) := splitSign cs
    (natural? 10 digits).map (applySign negative)

/-- A decimal numeral: digits, of which a point may split off a fraction, and an optional
exponent, between optional blanks and after an optional sign. It is rounded to binary64 once. -/
def decimal? (cs : List Char) : Option Binary64 := do
  let (negative, body) := splitSign (Text.trimWhile Text.isNumeralBlank cs)
  let (mantissa, exponentPart) := splitAt 'e' body
  let (whole, fractionPart) := splitAt '.' mantissa
  let fraction := fractionPart.getD []
  let places ← if whole ++ fraction = [] then none else digits? 10 (whole ++ fraction)
  let e ← exponent? exponentPart
  return Binary64.ofDecimal negative (value 10 places) (places.dropWhile (· = 0)).length
    (e - fraction.length)

end TypeSchema.Numeral
