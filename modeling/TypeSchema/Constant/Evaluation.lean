import TypeSchema.Number.Literal
import TypeSchema.Schema.Basic
import TypeSchema.Source.Declaration

/-!
# Evaluating literals and enums

The types that literals and enum members evaluate to. A type is described by flags and, for a
literal type, by its value. Members of an enum without an initializer are numbered on from the
member before them; behind a text or a member that is not constant the numbering cannot go on, and
the member is a number without a known value.
-/

namespace TypeSchema

inductive TypeFlag where
  | any
  | unknown
  | string
  | number
  | boolean
  | enum
  | bigInt
  | stringLiteral
  | numberLiteral
  | booleanLiteral
  | enumLiteral
  | bigIntLiteral
  | null
  | undefined
  | union
  | object
  deriving DecidableEq

namespace TypeFlag

def all : List TypeFlag :=
  [any, unknown, string, number, boolean, enum, bigInt, stringLiteral, numberLiteral,
   booleanLiteral, enumLiteral, bigIntLiteral, null, undefined, union, object]

def name : TypeFlag → String
  | any => "ANY"
  | unknown => "UNKNOWN"
  | string => "STRING"
  | number => "NUMBER"
  | boolean => "BOOLEAN"
  | enum => "ENUM"
  | bigInt => "BIGINT"
  | stringLiteral => "STRING_LITERAL"
  | numberLiteral => "NUMBER_LITERAL"
  | booleanLiteral => "BOOLEAN_LITERAL"
  | enumLiteral => "ENUM_LITERAL"
  | bigIntLiteral => "BIGINT_LITERAL"
  | null => "NULL"
  | undefined => "UNDEFINED"
  | union => "UNION"
  | object => "OBJECT"

def names (flags : List TypeFlag) : List String :=
  (all.filter (· ∈ flags)).map name

end TypeFlag

/-- A type as it was evaluated: a set of flags and the value of a literal, or `null`. -/
structure Evaluated where
  flags : List TypeFlag
  value : Json := .null

namespace Evaluated

def enumNumber (n : Number) : Evaluated := ⟨[.numberLiteral, .enumLiteral], .number n⟩

def enumText (s : String) : Evaluated := ⟨[.stringLiteral, .enumLiteral], .text s⟩

/-- An enum member that is some number. -/
def computedNumber : Evaluated := ⟨[.number, .enum], .null⟩

/-- The literal schema of a text or number literal type; other types have none. -/
def literalSchema? (evaluated : Evaluated) : Option Schema :=
  if .stringLiteral ∈ evaluated.flags then some (.stringLiteral evaluated.value)
  else if .numberLiteral ∈ evaluated.flags then some (.numberLiteral evaluated.value)
  else none

end Evaluated

namespace Literal

/-- The type of a literal, or `none` when the text is no numeral of its kind. -/
def evaluate? (literal : Literal) : Option Evaluated :=
  match literal.kind with
  | .string => some ⟨[.stringLiteral], .text literal.text⟩
  | .numeric =>
    (NumericLiteral.read literal.text).toOption.map fun n => ⟨[.numberLiteral], .number n⟩
  | .bigInt =>
    (NumericLiteral.readBigInt literal.text).toOption.map fun n =>
      ⟨[.bigIntLiteral], .number (.integer n)⟩
  | .trueLiteral => some ⟨[.booleanLiteral], .bool true⟩
  | .falseLiteral => some ⟨[.booleanLiteral], .bool false⟩
  | .null => some ⟨[.null], .null⟩
  | _ => some ⟨[.any], .null⟩

/-- The number that an initializer stands for, if it is constant. -/
def constantNumber? (literal : Literal) : Option Number :=
  match literal.kind with
  | .numeric => (NumericLiteral.read literal.text).toOption
  | .prefixUnary => NumericLiteral.unary? literal.text
  | _ => none

def evaluateConstant (literal : Literal) : Evaluated :=
  match literal.kind with
  | .string | .template => .enumText literal.text
  | _ => literal.constantNumber?.elim .computedNumber .enumNumber

def isBrokenNumber (literal : Literal) : Bool :=
  literal.kind = .numeric && literal.constantNumber?.isNone

end Literal

namespace Evaluated

/-- The type of a member without an initializer, after the type of the member before it. -/
def following : Option Evaluated → Evaluated
  | none => enumNumber (.integer 0)
  | some previous =>
    match previous.value with
    | .number n => if .numberLiteral ∈ previous.flags then enumNumber n.succ else computedNumber
    | _ => computedNumber

def ofMember (previous : Option Evaluated) (member : EnumMember) : Evaluated :=
  member.initializer.elim (following previous) Literal.evaluateConstant

def ofMembers (previous : Option Evaluated) : List EnumMember → List (EnumMember × Evaluated)
  | [] => []
  | member :: rest =>
    let evaluated := ofMember previous member
    (member, evaluated) :: ofMembers (some evaluated) rest

/-- The type of a member of an enum that was never registered. -/
def ofUnregistered (member : EnumMember) : Evaluated :=
  member.initializer.elim ⟨[.number], .null⟩ Literal.evaluateConstant

end Evaluated

end TypeSchema
