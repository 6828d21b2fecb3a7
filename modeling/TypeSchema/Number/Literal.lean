import TypeSchema.Number.Numeral
import TypeSchema.Text.Quoted

/-!
# Numeric literals

The value of a number as it is written in source text. Digit separators are dropped and letters
lowered first. A base prefix then makes an integer, a point or an exponent letter a binary64
number, and everything else is a decimal integer; so integral literals stay exact at any size.
-/

namespace TypeSchema.NumericLiteral

inductive Problem where
  | malformed
  | notFinite (text : String)
  deriving DecidableEq

def Problem.message : Problem → Option String
  | malformed => none
  | notFinite text => some s!"Numeric literal {Text.quoted text} is not finite"

/-- A source text without digit separators and in lower-case letters. Only the letters of ASCII
matter, as no other letter belongs to a numeral or turns into one that does. -/
def clean (text : String) : List Char :=
  (text.toList.filter (· ≠ '_')).map Char.toLower

def orMalformed {α : Type} : Option α → Except Problem α
  | some a => .ok a
  | none => .error .malformed

/-- An integer in source text, with or without a base prefix. -/
def integer? (cs : List Char) : Option Int :=
  match Numeral.splitBase? cs with
  | some (base, digits) => Numeral.prefixedInteger? base digits
  | none => Numeral.decimalInteger? cs

/-- Whether a cleaned text without base prefix is to be read as a binary64 number. -/
def isReal (cs : List Char) : Bool :=
  (Numeral.splitBase? cs).isNone && cs.any fun c => c = '.' || c = 'e'

def read (text : String) : Except Problem Number :=
  let cs := clean text
  if isReal cs then do
    let x ← orMalformed (Numeral.decimal? cs)
    if x.isFinite then return .real x else throw (.notFinite text)
  else return .integer (← orMalformed (integer? cs))

/-- A cleaned text without the letter that marks a literal of arbitrary size. -/
def dropMark (cs : List Char) : List Char :=
  match cs.reverse with
  | 'n' :: rest => rest.reverse
  | _ => cs

/-- The value of an integer literal of arbitrary size, such as `123n`; the mark may be absent. -/
def readBigInt (text : String) : Except Problem Int :=
  orMalformed (integer? (dropMark (clean text)))

/-- The value of a sign or complement applied to a numeric literal. -/
def unary? (text : String) : Option Number :=
  match Text.trim text.toList with
  | operator :: operand =>
    if operand = [] then none
    else
      let value? := (read (String.ofList (Text.trim operand))).toOption
      match operator with
      | '-' => value?.map Number.neg
      | '+' => value?
      | '~' => value?.bind Number.complement?
      | _ => none
  | [] => none

end TypeSchema.NumericLiteral
