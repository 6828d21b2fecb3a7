import TypeSchema.Json.Basic
import TypeSchema.Text.Quoted

/-!
# Values in messages

The text that stands for a JSON value in messages and where a text was expected. A text stands for
itself at the top and is quoted inside arrays and objects; `null`, `true` and `false` are written
`None`, `True` and `False`. A value with too long an integer in it, or with values nested too deep
inside it, has no such text.
-/

namespace TypeSchema.Json

/-- Messages write exponents from `-4` to `15` in positional notation. -/
def displayLayout : Binary64.Layout where
  leastPositional := -4
  greatestPositional := 15
  exponentDigits := 2
  nan := "nan"
  infinity := "inf"

mutual

def displayQuoted : Json → String
  | null => "None"
  | bool b => if b then "True" else "False"
  | number n => n.render displayLayout
  | text s => Text.quoted s
  | array items => "[" ++ String.intercalate ", " (displayItems items) ++ "]"
  | object fields => "\x7b" ++ String.intercalate ", " (displayFields fields) ++ "\x7d"

def displayItems : List Json → List String
  | [] => []
  | json :: rest => displayQuoted json :: displayItems rest

def displayFields : List (String × Json) → List String
  | [] => []
  | (key, json) :: rest =>
    (Text.quoted key ++ ": " ++ displayQuoted json) :: displayFields rest

end

/-- The text of a value in which every text is quoted. -/
def quoted (showing : Nat) (json : Json) : Except Excess String :=
  (json.stop? (showing + 1)).elim (.ok json.displayQuoted) .error

def display (showing : Nat) : Json → Except Excess String
  | text s => .ok s
  | json => json.quoted showing

/-- The word for the kind of a value in messages about misused values. -/
def kindWord : Json → String
  | null => "NoneType"
  | bool _ => "bool"
  | number (.integer _) => "int"
  | number (.real _) => "float"
  | text _ => "str"
  | array _ => "list"
  | object _ => "dict"

end TypeSchema.Json
