import TypeSchema.Format.Range

/-!
# Writing documents

Every type, member, declaration, literal and name is written as an object that tells its kind and
then its parts, under the names of the format. What a node does not have is left out. Documents,
functions, parameters and enum members are told by their place and have no kind, and locations are
not written.

An initializer that is no literal is known by its text alone, so the kind that it is written with
has to be given.
-/

namespace TypeSchema.Format

/-- The kind of an expression that is no literal. -/
structure ExpressionKind where
  word : String
  nonempty : word ≠ ""
  unknown : literalKinds.lookup word = none

/-! ### Kinds -/

def keywordKind : Keyword → String
  | .any => "AnyKeyword"
  | .unknown => "UnknownKeyword"
  | .bigInt => "BigIntKeyword"
  | .boolean => "BooleanKeyword"
  | .trueLiteral => "TrueKeyword"
  | .falseLiteral => "FalseKeyword"
  | .null => "NullKeyword"
  | .number => "NumberKeyword"
  | .string => "StringKeyword"
  | .undefined => "UndefinedKeyword"
  | .void => "VoidKeyword"
  | .never => "NeverKeyword"
  | .object => "ObjectKeyword"
  | .symbol => "SymbolKeyword"

def literalKind (expression : ExpressionKind) : LiteralKind → String
  | .null => "NullKeyword"
  | .trueLiteral => "TrueKeyword"
  | .falseLiteral => "FalseKeyword"
  | .string => "StringLiteral"
  | .numeric => "NumericLiteral"
  | .bigInt => "BigIntLiteral"
  | .regularExpression => "RegularExpressionLiteral"
  | .template => "NoSubstitutionTemplateLiteral"
  | .markupAttributes => "JsxAttributes"
  | .objectLiteral => "ObjectLiteralExpression"
  | .prefixUnary => "PrefixUnaryExpression"
  | .expression => expression.word

def nameKind : NameKind → String
  | .identifier => "Identifier"
  | .string => "StringLiteral"
  | .numeric => "NumericLiteral"
  | .computed => "ComputedPropertyName"
  | .privateName => "PrivateIdentifier"
  | .foreign word => word

/-! ### Nodes -/

/-- An object that tells its kind first. -/
def node (kind : String) (fields : List (String × Json)) : Json :=
  .object (("kind", .text kind) :: fields)

/-- A field that is left out when it has no value. -/
def optionalField (name : String) : Option Json → List (String × Json)
  | none => []
  | some value => [(name, value)]

def writeName (name : PropertyName) : Json := node (nameKind name.kind) [("text", .text name.text)]

section Nodes

variable (expression : ExpressionKind)

def writeLiteral (literal : Literal) : Json :=
  node (literalKind expression literal.kind) [("text", .text literal.text)]

mutual

def writeType : TypeExpr → Json
  | .keyword _ keyword => node (keywordKind keyword) []
  | .literal _ literal => node "LiteralType" [("literal", writeLiteral expression literal)]
  | .array _ element => node "ArrayType" [("elementType", writeType element)]
  | .union _ parts => node "UnionType" [("types", .array (writeTypes parts))]
  | .intersection _ parts => node "IntersectionType" [("types", .array (writeTypes parts))]
  | .parenthesized _ inner => node "ParenthesizedType" [("type", writeType inner)]
  | .tuple _ elements => node "TupleType" [("elements", .array (writeTypes elements))]
  | .object _ members => node "TypeLiteral" [("members", .array (writeMembers members))]
  | .reference _ name arguments =>
    node "TypeReference"
      [("typeName", .text name), ("typeArguments", .array (writeTypes arguments))]
  | .unsupported _ kind => node kind []
  | .foreign _ word => node word []

def writeTypes : List TypeExpr → List Json
  | [] => []
  | type :: rest => writeType type :: writeTypes rest

def writeTypeOption : Option TypeExpr → Option Json
  | none => none
  | some type => some (writeType type)

def writeMember : Member → Json
  | .property _ name type optional =>
    node "PropertySignature"
      (("name", writeName name) :: ("optional", .bool optional) ::
        optionalField "type" (writeTypeOption type))
  | .index _ parameter key type =>
    node "IndexSignature"
      (("parameters", .array
          [.object (("name", .text parameter) :: optionalField "type" (writeTypeOption key))]) ::
        optionalField "type" (writeTypeOption type))
  | .other _ kind name => node kind (optionalField "name" (name.map writeName))
  | .foreign _ word => node word []

def writeMembers : List Member → List Json
  | [] => []
  | member :: rest => writeMember member :: writeMembers rest

end

end Nodes

end TypeSchema.Format
