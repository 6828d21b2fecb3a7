import TypeSchema.Constant.Evaluation
import TypeSchema.Json.Integer

/-!
# Failures

Why a type expression has no schema. A failure ends the resolution that it occurs in; it has one
cause and, where there is one, the node at fault. A resolution also ends when a bigint literal
evaluates to a value that is no integer, which is the fault of the evaluation and not of a node.
-/

namespace TypeSchema

inductive Cause where
  | unsupportedNode
  | unsupportedKeyword
  | unsupportedLiteral
  | missingType
  | missingReturnType
  | computedName
  | privateName
  | invalidName
  | duplicateMember
  | unsupportedMember
  | indexSignature
  | unresolvedReference
  | unsupportedDeclaration
  | invalidEnumMember
  | unsupportedLiteralType
  | nestingTooDeep
  deriving DecidableEq

def Cause.name : Cause → String
  | unsupportedNode => "unsupported_node"
  | unsupportedKeyword => "unsupported_keyword"
  | unsupportedLiteral => "unsupported_literal"
  | missingType => "missing_type"
  | missingReturnType => "missing_return_type"
  | computedName => "computed_name"
  | privateName => "private_name"
  | invalidName => "invalid_name"
  | duplicateMember => "duplicate_member"
  | unsupportedMember => "unsupported_member"
  | indexSignature => "index_signature"
  | unresolvedReference => "unresolved_reference"
  | unsupportedDeclaration => "unsupported_declaration"
  | invalidEnumMember => "invalid_enum_member"
  | unsupportedLiteralType => "unsupported_literal_type"
  | nestingTooDeep => "nesting_too_deep"

/-- What is wrong, with everything that the message tells about it. -/
inductive Problem where
  | unsupportedType (kind : String)
  | unsupportedKeyword (keyword : Keyword)
  | unsupportedLiteral (kind : LiteralKind)
  | memberWithoutType
  | parameterWithoutType (parameter function : String)
  | signatureWithoutType (function : String)
  | computedName (text : String)
  | privateName (text : String)
  | invalidName (word : String)
  | duplicateMember (name : String)
  | unsupportedMember
  | indexSignature
  | unresolvedReference (name : String)
  | unsupportedReference (name description : String)
  | unsupportedDeclaration (name description : String)
  | invalidEnumMember (name : String) (flags : List TypeFlag)
  | notLiteral (flags : List TypeFlag)
  | invalidLiteral (text : String) (kind : LiteralKind)
  | notBigInt (text : String)
  | nestedTooDeeply
  deriving DecidableEq

namespace Problem

def cause : Problem → Cause
  | unsupportedType _ => .unsupportedNode
  | unsupportedKeyword _ => .unsupportedKeyword
  | unsupportedLiteral _ => .unsupportedLiteral
  | memberWithoutType | parameterWithoutType _ _ => .missingType
  | signatureWithoutType _ => .missingReturnType
  | computedName _ => .computedName
  | privateName _ => .privateName
  | invalidName _ => .invalidName
  | duplicateMember _ => .duplicateMember
  | unsupportedMember => .unsupportedMember
  | indexSignature => .indexSignature
  | unresolvedReference _ => .unresolvedReference
  | unsupportedReference _ _ | unsupportedDeclaration _ _ => .unsupportedDeclaration
  | invalidEnumMember _ _ => .invalidEnumMember
  | notLiteral _ | invalidLiteral _ _ | notBigInt _ => .unsupportedLiteralType
  | nestedTooDeeply => .nestingTooDeep

def notLiteralMessage (flags : List TypeFlag) : String :=
  let names := if flags = [] then "NONE" else String.intercalate " | " (TypeFlag.names flags)
  s!"Literal schema for type with flags ({names}) is not supported"

def message : Problem → String
  | unsupportedType kind => s!"Type node {kind} is not implemented"
  | unsupportedKeyword keyword => s!"Keyword type '{keyword.spelling}' is not implemented"
  | unsupportedLiteral kind => s!"Literal type {kind.name} is not implemented"
  | memberWithoutType => "Member must have a type"
  | parameterWithoutType parameter function =>
    s!"Parameter '{parameter}' of '{function}' must have a type"
  | signatureWithoutType function => s!"Function '{function}' must have a return type"
  | computedName text => s!"Member name must not be a computed property: [{text}]"
  | privateName text => s!"Member name must not be a private identifier: {text}"
  | invalidName word => s!"Unexpected value for member name: {word}"
  | duplicateMember name => s!"Duplicate member '{name}'"
  | unsupportedMember => "Member type is not supported"
  | indexSignature => "Index signature members are not implemented"
  | unresolvedReference name => s!"Cannot resolve type reference '{name}'"
  | unsupportedReference name description =>
    s!"Type reference '{name}' to {description} is not implemented"
  | unsupportedDeclaration name description =>
    s!"Declaration '{name}' of kind {description} is not implemented"
  | invalidEnumMember name flags =>
    s!"Enum member '{name}' should be either of type string or number " ++
      "(" ++ notLiteralMessage flags ++ ")"
  | notLiteral flags => notLiteralMessage flags
  | invalidLiteral text kind => s!"Literal '{text}' is not a valid {kind.name} literal"
  | notBigInt text => s!"Bigint literal {text} did not evaluate to a bigint literal type"
  | nestedTooDeeply => "Type expression is nested too deeply"

end Problem

structure Failure where
  problem : Problem
  node : Option Node

namespace Failure

def cause (failure : Failure) : Cause := failure.problem.cause

def message (failure : Failure) : String := failure.problem.message

def location (failure : Failure) : Option Location := failure.node.bind Node.location

/-- The message of a failure, after its location if there is one that shows. -/
def render (failure : Failure) : String :=
  let place := failure.location.elim "" Location.render
  if place = "" then failure.message else place ++ ": " ++ failure.message

end Failure

/-- What ends a resolution: a failure, or a bigint literal whose value is no integer. -/
inductive Fault where
  | failure (failure : Failure)
  | notInteger (problem : Json.IntegerProblem)

end TypeSchema
