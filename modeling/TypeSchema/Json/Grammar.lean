import TypeSchema.Json.Reader

/-!
# The grammar of JSON texts

Which texts are JSON texts, whatever they stand for. A text is one value between blanks, and blanks
may stand on both sides of the commas and colons inside it. A value is a word, a number, a text in
quotes, or an array or object of values. The words for what is no number, which the reader takes as
well, do not belong to the grammar; so of the binary64 numbers only the finite ones have a text.
-/

namespace TypeSchema

def Number.isFinite : Number → Bool
  | integer _ => true
  | real x => x.isFinite

namespace Json

/-! ### Values that have a text -/

mutual

/-- Whether all numbers that stand anywhere in a value are finite. -/
def isFinite : Json → Bool
  | number n => n.isFinite
  | array items => areFinite items
  | object fields => areFiniteFields fields
  | _ => true

def areFinite : List Json → Bool
  | [] => true
  | json :: rest => json.isFinite && areFinite rest

def areFiniteFields : List (String × Json) → Bool
  | [] => true
  | (_, json) :: rest => json.isFinite && areFiniteFields rest

end

/-! ### Blanks -/

def isBlank (c : Char) : Bool := c = ' ' || c = '\t' || c = '\n' || c = '\r'

/-- Any number of blanks, none as well. -/
def AreBlanks (cs : List Char) : Prop := ∀ c ∈ cs, isBlank c

/-! ### Numbers -/

/-- At least one digit, and nothing else. -/
structure AreDigits (cs : List Char) : Prop where
  nonempty : cs ≠ []
  digits : ∀ c ∈ cs, isDigit c

/-- The whole part of a number: a zero at its start stands alone. -/
structure IsWhole (cs : List Char) : Prop extends AreDigits cs where
  leading : cs.head? = some '0' → cs = ['0']

inductive IsFraction : List Char → Prop
  | none : IsFraction []
  | some {digits : List Char} (h : AreDigits digits) : IsFraction ('.' :: digits)

inductive IsExponent : List Char → Prop
  | none : IsExponent []
  | some {letter : Char} {sign digits : List Char} (hletter : letter = 'e' ∨ letter = 'E')
      (hsign : sign = [] ∨ sign = ['+'] ∨ sign = ['-']) (h : AreDigits digits) :
      IsExponent (letter :: sign ++ digits)

inductive IsNumber : List Char → Prop
  | mk {sign whole fraction exponent : List Char} (hsign : sign = [] ∨ sign = ['-'])
      (hwhole : IsWhole whole) (hfraction : IsFraction fraction) (hexponent : IsExponent exponent) :
      IsNumber (sign ++ whole ++ fraction ++ exponent)

/-! ### Texts in quotes -/

/-- What may stand between two quotes. -/
inductive AreQuotable : List Char → Prop
  | nil : AreQuotable []
  | plain {c : Char} {cs : List Char} (h : 0x20 ≤ c.toNat) (hquote : c ≠ '"') (hescape : c ≠ '\\')
      (hrest : AreQuotable cs) : AreQuotable (c :: cs)
  | escaped {c : Char} {cs : List Char} (h : (escaped? c).isSome) (hrest : AreQuotable cs) :
      AreQuotable ('\\' :: c :: cs)
  | unit {digits cs : List Char} (hlength : digits.length = 4)
      (hdigits : ∀ c ∈ digits, (hexDigit? c).isSome) (hrest : AreQuotable cs) :
      AreQuotable ('\\' :: 'u' :: digits ++ cs)

inductive IsQuoted : List Char → Prop
  | mk {cs : List Char} (h : AreQuotable cs) : IsQuoted ('"' :: cs ++ ['"'])

/-! ### Values -/

/-- The kinds of the larger parts of a text. -/
inductive Part where
  | value
  /-- A value between blanks: an item of an array, or a whole text. -/
  | item
  | field
  /-- One part or more of a kind, with commas between them. -/
  | listed (part : Part)

inductive IsPart : Part → List Char → Prop
  | word {word : String} (h : word ∈ ["null", "true", "false"]) : IsPart .value word.toList
  | number {cs : List Char} (h : IsNumber cs) : IsPart .value cs
  | text {cs : List Char} (h : IsQuoted cs) : IsPart .value cs
  | emptyArray {cs : List Char} (h : AreBlanks cs) : IsPart .value ('[' :: cs ++ [']'])
  | array {cs : List Char} (h : IsPart (.listed .item) cs) : IsPart .value ('[' :: cs ++ [']'])
  | emptyObject {cs : List Char} (h : AreBlanks cs) : IsPart .value ('\x7b' :: cs ++ ['\x7d'])
  | object {cs : List Char} (h : IsPart (.listed .field) cs) :
      IsPart .value ('\x7b' :: cs ++ ['\x7d'])
  | item {before cs after : List Char} (hbefore : AreBlanks before) (h : IsPart .value cs)
      (hafter : AreBlanks after) : IsPart .item (before ++ cs ++ after)
  | field {before name between cs : List Char} (hbefore : AreBlanks before) (hname : IsQuoted name)
      (hbetween : AreBlanks between) (h : IsPart .item cs) :
      IsPart .field (before ++ name ++ between ++ ':' :: cs)
  | one {part : Part} {cs : List Char} (h : IsPart part cs) : IsPart (.listed part) cs
  | more {part : Part} {cs rest : List Char} (h : IsPart part cs)
      (hrest : IsPart (.listed part) rest) : IsPart (.listed part) (cs ++ ',' :: rest)

/-- One complete JSON text. -/
def IsText (s : String) : Prop := IsPart .item s.toList

end Json

end TypeSchema
