import TypeSchema.Number.Shortest

/-!
# Numbers

A number is an integer of any size or a binary64 number. The two never mix: an integer stays exact
under every operation, and a binary64 number stays one even when its value is integral. Integers of
very many decimal digits exist, but are neither read from decimal numerals nor written.
-/

namespace TypeSchema

inductive Number where
  | integer (value : Int)
  | real (value : Binary64)
  deriving DecidableEq

namespace Number

def isZero : Number → Bool
  | integer n => n = 0
  | real x => x.isZero

def succ : Number → Number
  | integer n => integer (n + 1)
  | real x => real x.succ

def neg : Number → Number
  | integer n => integer (-n)
  | real x => real x.neg

/-- The bitwise complement of a number that is integral; it is always an integer. -/
def complement? : Number → Option Number
  | integer n => some (integer (-n - 1))
  | real x => x.toInt?.map fun n => integer (-n - 1)

def truncate? : Number → Option Int
  | integer n => some n
  | real x => x.truncate?

def hasValue : Number → Int → Bool
  | integer n, value => n = value
  | real x, value => x.toInt? = some value

/-- Integers of more decimal digits than this are neither read nor written. -/
def digitLimit : Nat := 4300

def isTooLong : Number → Bool
  | integer n => Nat.pow 10 digitLimit ≤ n.natAbs
  | real _ => false

/-- The message about an integer of too many digits, after what is said about their number. -/
def limitMessage (detail : String) : String :=
  s!"Exceeds the limit ({digitLimit} digits) for integer string conversion" ++ detail ++
    "; use sys.set_int_max_str_digits() to increase the limit"

def readLimitMessage (digits : Nat) : String := limitMessage s!": value has {digits} digits"

def writeLimitMessage : String := limitMessage ""

/-- The text of a number: an integer by its decimal digits, a binary64 number in a layout. -/
def render (layout : Binary64.Layout) : Number → String
  | integer n => toString n
  | real x => x.render layout

end Number

end TypeSchema
