import TypeSchema.Text.CodePoint
import TypeSchema.Text.Printable

/-!
# Quoted texts

A quoted text stands between single quotes, or between double quotes when it holds a single quote
and no double one. The quote in use and the backslash are escaped, line feed, carriage return and
tab have escapes of their own, and every other unprintable code point is written in two, four or
eight hexadecimal digits.
-/

namespace TypeSchema.Text

def quoteFor (cs : List Char) : Char :=
  if '\'' ∈ cs ∧ '"' ∉ cs then '"' else '\''

def escapeIn (quote : Char) (point : Nat) : List Char :=
  let c := Char.ofNat point
  if c = quote ∨ c = '\\' then ['\\', c]
  else if c = '\n' then ['\\', 'n']
  else if c = '\r' then ['\\', 'r']
  else if c = '\t' then ['\\', 't']
  else if isPrintable point then [c]
  else if point < 0x100 then '\\' :: 'x' :: hexPadded 2 point
  else if point < 0x10000 then '\\' :: 'u' :: hexPadded 4 point
  else '\\' :: 'U' :: hexPadded 8 point

def quoted (s : String) : String :=
  let quote := quoteFor s.toList
  String.ofList (quote :: (points s.toList).flatMap (escapeIn quote) ++ [quote])

/-- A text from outside in quotes. -/
def quotedHeld (s : String) : String := quoted (held s)

end TypeSchema.Text
