import TypeSchema.Source.Location

/-!
# Keywords, literals and property names

The leaves of type expressions and declarations.
-/

namespace TypeSchema

inductive Keyword where
  | any
  | unknown
  | bigInt
  | boolean
  | trueLiteral
  | falseLiteral
  | null
  | number
  | string
  | undefined
  | void
  | never
  | object
  | symbol
  deriving DecidableEq

def Keyword.spelling : Keyword → String
  | any => "any"
  | unknown => "unknown"
  | bigInt => "bigint"
  | boolean => "boolean"
  | trueLiteral => "true"
  | falseLiteral => "false"
  | null => "null"
  | number => "number"
  | string => "string"
  | undefined => "undefined"
  | void => "void"
  | never => "never"
  | object => "object"
  | symbol => "symbol"

/-- The kinds of literal expressions. An `expression` is anything that is not a literal; it occurs
as the initializer of an enum member only. -/
inductive LiteralKind where
  | null
  | trueLiteral
  | falseLiteral
  | string
  | numeric
  | bigInt
  | regularExpression
  | template
  | markupAttributes
  | objectLiteral
  | prefixUnary
  | expression
  deriving DecidableEq

def LiteralKind.name : LiteralKind → String
  | null => "null"
  | trueLiteral => "true"
  | falseLiteral => "false"
  | string => "string"
  | numeric => "numeric"
  | bigInt => "bigint"
  | regularExpression => "regular_expression"
  | template => "no_substitution_template"
  | markupAttributes => "jsx_attributes"
  | objectLiteral => "object_literal"
  | prefixUnary => "prefix_unary"
  | expression => "expression"

/-- A literal expression. The text is the value of a string, with its escapes resolved, and the
source text of everything else. -/
structure Literal where
  kind : LiteralKind
  text : String
  location : Option Location
  deriving DecidableEq

/-- The kinds of member names. A `foreign` name is a node that names nothing by itself; it is known
by the word for its kind. -/
inductive NameKind where
  | identifier
  | string
  | numeric
  | computed
  | privateName
  | foreign (word : String)
  deriving DecidableEq

/-- The name of a member. The text of a computed name is the source text of its expression. -/
structure PropertyName where
  kind : NameKind
  text : String
  location : Option Location
  deriving DecidableEq

end TypeSchema
