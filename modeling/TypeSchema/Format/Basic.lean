import TypeSchema.Json.Basic
import TypeSchema.Source.Declaration

/-!
# The document format

Documents are JSON. Every node is an object with a `kind`, and this module fixes the words of the
format: the kinds of nodes, and what can be wrong with a document. A document that is not at fault
can still hold, where a text is expected, a value that has none: one nested too deeply or with an
integer of too many digits.
-/

namespace TypeSchema.Format

def keywordKinds : List (String × Keyword) :=
  [("AnyKeyword", .any), ("UnknownKeyword", .unknown), ("BigIntKeyword", .bigInt),
   ("BooleanKeyword", .boolean), ("TrueKeyword", .trueLiteral), ("FalseKeyword", .falseLiteral),
   ("NullKeyword", .null), ("NumberKeyword", .number), ("StringKeyword", .string),
   ("UndefinedKeyword", .undefined), ("VoidKeyword", .void), ("NeverKeyword", .never),
   ("ObjectKeyword", .object), ("SymbolKeyword", .symbol)]

def literalKinds : List (String × LiteralKind) :=
  [("NullKeyword", .null), ("TrueKeyword", .trueLiteral), ("FalseKeyword", .falseLiteral),
   ("StringLiteral", .string), ("NumericLiteral", .numeric), ("BigIntLiteral", .bigInt),
   ("RegularExpressionLiteral", .regularExpression),
   ("NoSubstitutionTemplateLiteral", .template), ("JsxAttributes", .markupAttributes),
   ("ObjectLiteralExpression", .objectLiteral), ("PrefixUnaryExpression", .prefixUnary)]

def nameKinds : List (String × NameKind) :=
  [("Identifier", .identifier), ("StringLiteral", .string), ("NumericLiteral", .numeric),
   ("ComputedPropertyName", .computed), ("PrivateIdentifier", .privateName)]

/-- The kinds of members that are recognised and never become part of a schema. -/
def otherMemberKinds : List String :=
  ["MethodSignature", "CallSignature", "ConstructSignature", "GetAccessor", "SetAccessor"]

/-- Literals whose value is their text, which they must have. -/
def isValueKind : LiteralKind → Bool
  | .string | .numeric | .bigInt => true
  | _ => false

inductive Problem where
  | documentNotObject
  | notObject
  | missingKind
  | notString (field : String)
  | notList (field : String)
  | locationNotObject
  | fileNotString
  | notInteger (field : String)
  | missingLiteral
  | missingElementType
  | missingParenthesizedType
  | missingAliasType
  | baseNotReference
  | unknownLiteralKind (kind : String)
  | unknownMemberKind (kind : String)
  | unknownNameKind (kind : String)
  | nestedTooDeeply
  | integerTooLong
  deriving DecidableEq

def Problem.ofExcess : Json.Excess → Problem
  | .integerTooLong => integerTooLong
  | .tooDeep => nestedTooDeeply

def Problem.message : Problem → String
  | documentNotObject => "Syntax document must be an object"
  | notObject => "Expected an object"
  | missingKind => "Node must have a 'kind'"
  | notString field => s!"'{field}' must be a string"
  | notList field => s!"'{field}' must be a list"
  | locationNotObject => "'loc' must be an object"
  | fileNotString => "'loc.file' must be a string"
  | notInteger field => s!"'loc.{field}' must be an integer"
  | missingLiteral => "Literal type must have a literal"
  | missingElementType => "Array type must have an elementType"
  | missingParenthesizedType => "Parenthesized type must have a type"
  | missingAliasType => "Type alias must have a type"
  | baseNotReference => "Interface heritage must be a TypeReference"
  | unknownLiteralKind kind => s!"Unknown literal kind '{kind}'"
  | unknownMemberKind kind => s!"Unknown member kind '{kind}'"
  | unknownNameKind kind => s!"Unknown property name kind '{kind}'"
  | nestedTooDeeply => "Type expressions are nested too deeply"
  | integerTooLong => Number.writeLimitMessage

structure Error where
  problem : Problem
  pointer : Pointer
  deriving DecidableEq

/-- Whether a document does not have the form of one. An integer that cannot be shown is not the
fault of the document. -/
def Problem.isFormal (problem : Problem) : Bool := problem ≠ integerTooLong

/-- The message of a fault, after its place unless that is the empty text. -/
def Error.message (error : Error) : String :=
  let place := error.pointer.render
  if place = "" ∨ !error.problem.isFormal then error.problem.message
  else place ++ ": " ++ error.problem.message

end TypeSchema.Format
