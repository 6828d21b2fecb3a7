/-!
# Code points

A text of a document is a sequence of code points, and these may be halves of surrogate pairs, which
no character is. A half is held as a mark and three digits. The mark and the digits are
noncharacters; where these stand in a text themselves they are held in the same way, so no two texts
are held alike.
-/

namespace TypeSchema.Text

def isHighHalf (point : Nat) : Bool := 0xD800 ≤ point && point < 0xDC00

def isLowHalf (point : Nat) : Bool := 0xDC00 ≤ point && point < 0xE000

def isHalf (point : Nat) : Bool := 0xD800 ≤ point && point < 0xE000

def mark : Char := '\uFDE0'

/-- The noncharacters from U+FDD0 on are the digits. -/
def markedDigit (d : Nat) : Char := Char.ofNat (0xFDD0 + d)

/-- Whether a code point is the mark or a digit. -/
def isReserved (point : Nat) : Bool := 0xFDD0 ≤ point && point ≤ 0xFDE0

/-- The number behind the mark, for a code point that is not held as a character. -/
def markedNumber? (point : Nat) : Option Nat :=
  if isHalf point then some (point - 0xD800)
  else if isReserved point then some (0x800 + (point - 0xFDD0))
  else none

/-- The code point of a number behind the mark. -/
def ofMarkedNumber (n : Nat) : Nat :=
  if n < 0x800 then 0xD800 + n else 0xFDD0 + (n - 0x800)

/-- The characters that a code point is held as. -/
def hold (point : Nat) : List Char :=
  match markedNumber? point with
  | some n => [mark, markedDigit (n / 0x100), markedDigit (n / 0x10 % 0x10), markedDigit (n % 0x10)]
  | none => [Char.ofNat point]

def digitOf (c : Char) : Nat := c.toNat % 0x10

/-- The code points that characters hold. -/
def points : List Char → List Nat
  | [] => []
  | c :: high :: middle :: low :: rest =>
    if c = mark then
      ofMarkedNumber (digitOf high * 0x100 + digitOf middle * 0x10 + digitOf low) :: points rest
    else c.toNat :: points (high :: middle :: low :: rest)
  | c :: cs => c.toNat :: points cs

def ofPoints (ps : List Nat) : String := String.ofList (ps.flatMap hold)

/-- A text from outside, as documents hold it. -/
def held (s : String) : String := ofPoints (s.toList.map Char.toNat)

/-- A number in lower-case hexadecimal, padded with zeros to a width. -/
def hexPadded (width n : Nat) : List Char :=
  let digits := Nat.toDigits 16 n
  List.replicate (width - digits.length) '0' ++ digits

/-- A text as it is printed: half a surrogate pair is set out by its code. -/
def released (s : String) : String :=
  String.ofList <| (points s.toList).flatMap fun point =>
    if isHalf point then '\\' :: 'u' :: hexPadded 4 point else [Char.ofNat point]

end TypeSchema.Text
