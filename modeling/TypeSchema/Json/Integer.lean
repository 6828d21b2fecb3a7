import TypeSchema.Json.Display
import TypeSchema.Number.Numeral

/-!
# Values as integers

The integer that a value of any kind stands for: a text by its decimal numeral, a number by its
integer part, and `true` and `false` as one and zero. Other values stand for none.
-/

namespace TypeSchema.Json

inductive IntegerProblem where
  | malformed (text : String)
  | tooLong (digits : Nat)
  | infinite
  | notANumber
  | otherKind (word : String)
  deriving DecidableEq

namespace IntegerProblem

/-- A message shows at most this many characters of a text. -/
def shownLength : Nat := 200

def message : IntegerProblem → String
  | malformed literal =>
    let shown := String.ofList ((Text.quoted literal).toList.take shownLength)
    s!"invalid literal for int() with base 10: {shown}"
  | tooLong digits => Number.readLimitMessage digits
  | infinite => "cannot convert float infinity to integer"
  | notANumber => "cannot convert float NaN to integer"
  | otherKind word =>
    s!"int() argument must be a string, a bytes-like object or a real number, not '{word}'"

end IntegerProblem

/-- The integer that a text is the numeral of. -/
def integerOfText (s : String) : Except IntegerProblem Int :=
  match Numeral.separatedInteger s.toList with
  | .ok n => .ok n
  | .error .malformed => .error (.malformed s)
  | .error (.tooLong digits) => .error (.tooLong digits)

/-- The integer part of a binary64 number. -/
def integerOfReal (x : Binary64) : Except IntegerProblem Int :=
  match x.truncate? with
  | some n => .ok n
  | none => .error (if x.isNaN then .notANumber else .infinite)

def toInteger (json : Json) : Except IntegerProblem Int :=
  match json with
  | text s => integerOfText s
  | number (.integer n) => .ok n
  | number (.real x) => integerOfReal x
  | bool b => .ok (if b then 1 else 0)
  | null | array _ | object _ => .error (.otherKind json.kindWord)

end TypeSchema.Json
