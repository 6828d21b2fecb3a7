import TypeSchema.Json.Basic
import TypeSchema.Number.Numeral
import TypeSchema.Text.CodePoint

/-!
# Reading JSON

Texts are read strictly, but for three words: `NaN`, `Infinity` and `-Infinity` are numbers. Of two
fields of one name the last value counts, in the place of the first. A text keeps the halves of
surrogate pairs that are escaped in it one by one. A refusal tells the first character at which the
text stops being the beginning of a JSON text. Arrays and objects that are nested deeper than a
limit are refused as well. No character is behind more than two steps of the reader, so the length
of the text bounds the number of steps.
-/

namespace TypeSchema.Json

inductive Container where
  | array
  | object
  deriving DecidableEq

inductive Fault where
  | expectingValue
  | expectingName
  | expectingColon
  | expectingComma
  | extraData
  | unterminatedText
  | invalidEscape
  | invalidUnitEscape
  | controlCharacter
  | byteOrderMark
  deriving DecidableEq

def Fault.message : Fault → String
  | expectingValue => "Expecting value"
  | expectingName => "Expecting property name enclosed in double quotes"
  | expectingColon => "Expecting ':' delimiter"
  | expectingComma => "Expecting ',' delimiter"
  | extraData => "Extra data"
  | unterminatedText => "Unterminated string starting at"
  | invalidEscape => "Invalid \\escape"
  | invalidUnitEscape => "Invalid \\uXXXX escape"
  | controlCharacter => "Invalid control character at"
  | byteOrderMark => "Unexpected UTF-8 BOM (decode using utf-8-sig)"

inductive ReadError where
  | fault (kind : Fault) (position line column : Nat)
  | tooDeep (container : Container)
  | integerTooLong (digits : Nat)
  deriving DecidableEq

def ReadError.message : ReadError → String
  | fault kind position line column =>
    s!"{kind.message}: line {line} column {column} (char {position})"
  | tooDeep .array =>
    "maximum recursion depth exceeded while decoding a JSON array from a unicode string"
  | tooDeep .object =>
    "maximum recursion depth exceeded while decoding a JSON object from a unicode string"
  | integerTooLong digits => Number.readLimitMessage digits

/-! ### The cursor -/

/-- What is left of a text, and how many characters stand before it. -/
structure Cursor where
  rest : List Char
  position : Nat

inductive Stop where
  | fault (kind : Fault) (position : Nat)
  | tooDeep (container : Container)
  | integerTooLong (digits : Nat)

namespace Cursor

def fail {α : Type} (cursor : Cursor) (kind : Fault) : Except Stop α :=
  .error (.fault kind cursor.position)

def advance (cursor : Cursor) (count : Nat) : Cursor :=
  ⟨cursor.rest.drop count, cursor.position + count⟩

def skipBlanks (cursor : Cursor) : Cursor :=
  cursor.advance (cursor.rest.takeWhile fun c => c = ' ' || c = '\t' || c = '\n' || c = '\r').length

end Cursor

/-! ### Texts -/

def hexDigit? (c : Char) : Option Nat :=
  if '0' ≤ c ∧ c ≤ '9' then some (c.toNat - 48)
  else if 'a' ≤ c ∧ c ≤ 'f' then some (c.toNat - 87)
  else if 'A' ≤ c ∧ c ≤ 'F' then some (c.toNat - 55)
  else none

/-- The UTF-16 unit in the first four characters. The text has to go on after them. -/
def unit? (cs : List Char) : Option Nat :=
  if cs.length ≤ 4 then none
  else ((cs.take 4).mapM hexDigit?).map (Numeral.value 16)

def escaped? : Char → Option Char
  | '"' => some '"'
  | '\\' => some '\\'
  | '/' => some '/'
  | 'b' => some '\x08'
  | 'f' => some '\x0c'
  | 'n' => some '\n'
  | 'r' => some '\r'
  | 't' => some '\t'
  | _ => none

/-- The code point of the escapes that start with `\u`, and how many characters they take up after
the backslash. A high half is joined with a low one that follows it at once. -/
def readUnits (cursor : Cursor) : Except Stop (Nat × Nat) := do
  let digits := cursor.rest.drop 1
  let some unit := unit? digits | cursor.fail .invalidUnitEscape
  match digits.drop 4 with
  | '\\' :: 'u' :: low =>
    if Text.isHighHalf unit && 4 < low.length then
      let some next := unit? low | (cursor.advance 6).fail .invalidUnitEscape
      if Text.isLowHalf next then
        return (0x10000 + (unit - 0xD800) * 0x400 + (next - 0xDC00), 11)
      else return (unit, 5)
    else return (unit, 5)
  | _ => return (unit, 5)

/-- The text up to the closing quote; `start` is the position of the opening one. -/
def readText (start : Nat) : (fuel : Nat) → Cursor → List Nat → Except Stop (String × Cursor)
  | 0, _, _ => .error (.fault .unterminatedText start)
  | fuel + 1, cursor, done =>
    match cursor.rest with
    | [] => .error (.fault .unterminatedText start)
    | '"' :: _ => .ok (Text.ofPoints done.reverse, cursor.advance 1)
    | '\\' :: [] => .error (.fault .unterminatedText start)
    | '\\' :: 'u' :: _ => do
      let (point, length) ← readUnits (cursor.advance 1)
      readText start fuel (cursor.advance (1 + length)) (point :: done)
    | '\\' :: letter :: _ =>
      match escaped? letter with
      | some c => readText start fuel (cursor.advance 2) (c.toNat :: done)
      | none => cursor.fail .invalidEscape
    | c :: _ =>
      if c.toNat < 0x20 then cursor.fail .controlCharacter
      else readText start fuel (cursor.advance 1) (c.toNat :: done)

/-! ### Numbers -/

def isDigit (c : Char) : Bool := '0' ≤ c && c ≤ '9'

def fractionDigits : List Char → List Char
  | '.' :: cs => cs.takeWhile isDigit
  | _ => []

def exponentChars : List Char → List Char
  | e :: cs =>
    if e = 'e' ∨ e = 'E' then
      let sign := cs.takeWhile fun c => c = '+' || c = '-'
      let digits := (cs.drop sign.length).takeWhile isDigit
      if sign.length ≤ 1 ∧ digits ≠ [] then 'e' :: sign ++ digits else []
    else []
  | [] => []

def leadingMinus : List Char → List Char
  | '-' :: _ => ['-']
  | _ => []

/-- The digits of the whole part of a number: a zero stands alone. -/
def wholeDigits : List Char → List Char
  | '0' :: _ => ['0']
  | cs => cs.takeWhile isDigit

/-- A number: an integer unless it has a fraction or an exponent. -/
def readNumber (cursor : Cursor) : Except Stop (Json × Cursor) :=
  let sign := leadingMinus cursor.rest
  let whole := wholeDigits (cursor.rest.drop sign.length)
  let afterWhole := cursor.rest.drop (sign.length + whole.length)
  let fraction := fractionDigits afterWhole
  let fractionPart := if fraction = [] then [] else '.' :: fraction
  let exponentPart := exponentChars (afterWhole.drop fractionPart.length)
  let chars := sign ++ whole ++ fractionPart ++ exponentPart
  if whole = [] then cursor.fail .expectingValue
  else if fractionPart = [] ∧ exponentPart = [] then
    match Numeral.decimalInteger? chars with
    | some n => .ok (ofInt n, cursor.advance chars.length)
    | none => .error (.integerTooLong whole.length)
  else
    .ok (number (.real ((Numeral.decimal? chars).getD Binary64.nan)), cursor.advance chars.length)

/-! ### Values -/

def words : List (String × Json) :=
  [("null", null), ("true", bool true), ("false", bool false),
   ("NaN", number (.real Binary64.nan)),
   ("Infinity", number (.real (Binary64.infinity false))),
   ("-Infinity", number (.real (Binary64.infinity true)))]

def readWord? (cursor : Cursor) : Option (Json × Cursor) :=
  (words.find? fun word => word.1.toList.isPrefixOf cursor.rest).map fun word =>
    (word.2, cursor.advance word.1.length)

mutual

def readValue : (fuel depth : Nat) → Cursor → Except Stop (Json × Cursor)
  | 0, _, cursor => cursor.fail .expectingValue
  | fuel + 1, depth, cursor =>
    match cursor.rest with
    | '"' :: _ => do
      let (s, next) ← readText cursor.position fuel (cursor.advance 1) []
      return (text s, next)
    | '[' :: _ =>
      match depth with
      | 0 => .error (.tooDeep .array)
      | depth + 1 =>
        let inside := (cursor.advance 1).skipBlanks
        match inside.rest with
        | ']' :: _ => .ok (array [], inside.advance 1)
        | _ => do
          let (items, next) ← readItems fuel depth inside
          return (array items, next)
    | '\x7b' :: _ =>
      match depth with
      | 0 => .error (.tooDeep .object)
      | depth + 1 =>
        let inside := (cursor.advance 1).skipBlanks
        match inside.rest with
        | '\x7d' :: _ => .ok (object [], inside.advance 1)
        | _ => do
          let (fields, next) ← readFields fuel depth [] inside
          return (object fields, next)
    | _ =>
      match readWord? cursor with
      | some read => .ok read
      | none => readNumber cursor

def readItems : (fuel depth : Nat) → Cursor → Except Stop (List Json × Cursor)
  | 0, _, cursor => cursor.fail .expectingValue
  | fuel + 1, depth, cursor => do
    let (item, next) ← readValue fuel depth cursor
    let next := next.skipBlanks
    match next.rest with
    | ']' :: _ => return ([item], next.advance 1)
    | ',' :: _ =>
      let (items, last) ← readItems fuel depth (next.advance 1).skipBlanks
      return (item :: items, last)
    | _ => next.fail .expectingComma

def readFields : (fuel depth : Nat) → List (String × Json) → Cursor →
    Except Stop (List (String × Json) × Cursor)
  | 0, _, _, cursor => cursor.fail .expectingName
  | fuel + 1, depth, fields, cursor => do
    match cursor.rest with
    | '"' :: _ =>
      let (key, next) ← readText cursor.position fuel (cursor.advance 1) []
      let next := next.skipBlanks
      match next.rest with
      | ':' :: _ =>
        let (value, next) ← readValue fuel depth (next.advance 1).skipBlanks
        let next := next.skipBlanks
        let fields := insertField fields key value
        match next.rest with
        | '\x7d' :: _ => return (fields, next.advance 1)
        | ',' :: _ => readFields fuel depth fields (next.advance 1).skipBlanks
        | _ => next.fail .expectingComma
      | _ => next.fail .expectingColon
    | _ => cursor.fail .expectingName

end

def readWhole (depth : Nat) (cs : List Char) : Except Stop Json := do
  let start : Cursor := ⟨cs, 0⟩
  match cs with
  | '\uFEFF' :: _ => start.fail .byteOrderMark
  | _ =>
    let (json, next) ← readValue (2 * cs.length + 2) depth start.skipBlanks
    let last := next.skipBlanks
    if last.rest = [] then return json else last.fail .extraData

def lineAt (cs : List Char) (position : Nat) : Nat :=
  (cs.take position).count '\n' + 1

def columnAt (cs : List Char) (position : Nat) : Nat :=
  ((cs.take position).reverse.takeWhile (· ≠ '\n')).length + 1

def Stop.toError (cs : List Char) : Stop → ReadError
  | .fault kind position => .fault kind position (lineAt cs position) (columnAt cs position)
  | .tooDeep container => .tooDeep container
  | .integerTooLong digits => .integerTooLong digits

/-- The value of a JSON text in which arrays and objects are nested at most `depth` deep. -/
def read (depth : Nat) (s : String) : Except ReadError Json :=
  (readWhole depth s.toList).mapError (Stop.toError s.toList)

/-- Both `\r\n` and a lone `\r` end a line. -/
def unifyLines : List Char → List Char
  | '\r' :: '\n' :: cs => '\n' :: unifyLines cs
  | '\r' :: cs => '\n' :: unifyLines cs
  | c :: cs => c :: unifyLines cs
  | [] => []

/-- The value of the JSON text in a file; its line ends are unified first. -/
def readFile (depth : Nat) (contents : String) : Except ReadError Json :=
  read depth (String.ofList (unifyLines contents.toList))

end TypeSchema.Json
