import TypeSchema.Json.Basic
import TypeSchema.Text.Quoted

/-!
# Writing JSON

JSON texts are written in ASCII: every other code point becomes `\u` escapes of its UTF-16 units.
Without indentation everything stands on one line, with a space after commas and colons. With an
indentation every item and field stands on a line of its own; empty arrays and objects stay closed.
-/

namespace TypeSchema.Json

/-- Numbers are set out as in messages, but for the words of values that are no numbers. -/
def numberLayout : Binary64.Layout where
  leastPositional := -4
  greatestPositional := 15
  exponentDigits := 2
  nan := "NaN"
  infinity := "Infinity"

def escapeUnit (unit : Nat) : List Char := '\\' :: 'u' :: Text.hexPadded 4 unit

def escape (point : Nat) : List Char :=
  let c := Char.ofNat point
  if c = '"' ∨ c = '\\' then ['\\', c]
  else if c = '\n' then ['\\', 'n']
  else if c = '\r' then ['\\', 'r']
  else if c = '\t' then ['\\', 't']
  else if point = 0x08 then ['\\', 'b']
  else if point = 0x0C then ['\\', 'f']
  else if 0x20 ≤ point ∧ point < 0x7F then [c]
  else if point < 0x10000 then escapeUnit point
  else
    escapeUnit (0xD800 + (point - 0x10000) / 0x400) ++
      escapeUnit (0xDC00 + (point - 0x10000) % 0x400)

def writeText (s : String) : String :=
  String.ofList ('"' :: (Text.points s.toList).flatMap escape ++ ['"'])

/-- What separates the parts of an array or object at some nesting depth. -/
structure Spacing where
  opening : String
  between : String
  closing : String

/-- The spacing at a nesting depth: on one line without indentation, else a line for each part. -/
def spacing (indent : Option Nat) (level : Nat) : Spacing :=
  match indent with
  | none => ⟨"", ", ", ""⟩
  | some width =>
    let line (n : Nat) := "\n" ++ String.ofList (List.replicate (width * n) ' ')
    ⟨line (level + 1), "," ++ line (level + 1), line level⟩

def enclose (opening closing : String) (space : Spacing) (parts : List String) : String :=
  if parts.isEmpty then opening ++ closing
  else
    opening ++ space.opening ++ String.intercalate space.between parts ++ space.closing ++
      closing

mutual

def writeAt (indent : Option Nat) (level : Nat) : Json → String
  | null => "null"
  | bool b => if b then "true" else "false"
  | number n => n.render numberLayout
  | text s => writeText s
  | array items => enclose "[" "]" (spacing indent level) (writeItems indent (level + 1) items)
  | object fields =>
    enclose "\x7b" "\x7d" (spacing indent level) (writeFields indent (level + 1) fields)

def writeItems (indent : Option Nat) (level : Nat) : List Json → List String
  | [] => []
  | json :: rest => writeAt indent level json :: writeItems indent level rest

def writeFields (indent : Option Nat) (level : Nat) : List (String × Json) → List String
  | [] => []
  | (key, json) :: rest =>
    (writeText key ++ ": " ++ writeAt indent level json) :: writeFields indent level rest

end

/-- The JSON text of a value; `none` keeps it on one line. -/
def write (indent : Option Nat) (json : Json) : String :=
  writeAt indent 0 json

end TypeSchema.Json
