import TypeSchema.Source.TypeExpr

/-!
# Declarations, signatures and documents

A declaration gives a name to a type. An enum declares its members as well, under qualified names.
A document lists the declarations of a program and the functions whose types are wanted.
-/

namespace TypeSchema

/-- A member of an enum. Without an initializer it is numbered after the member before it. -/
structure EnumMember where
  location : Option Location
  name : String
  enumName : String
  memberName : PropertyName
  initializer : Option Literal
  deriving DecidableEq

def EnumMember.qualifiedName (member : EnumMember) : String :=
  member.enumName ++ "." ++ member.name

structure BaseType where
  location : Option Location
  name : String
  arguments : List TypeExpr

/-- What a type reference can point to. An `other` declaration is a class, a function and the
like; a `foreign` one is known by the word for its kind only. -/
inductive Declaration where
  | enum (location : Option Location) (name : String) (members : List EnumMember)
  | enumMember (member : EnumMember)
  | interface (location : Option Location) (name : String) (members : List Member)
      (bases : List BaseType)
  | typeAlias (location : Option Location) (name : String) (type : TypeExpr)
  | other (location : Option Location) (name kind : String)
  | foreign (location : Option Location) (name word : String)

namespace Declaration

def location : Declaration → Option Location
  | enum location _ _ | interface location _ _ _ | typeAlias location _ _ | other location _ _
  | foreign location _ _ => location
  | enumMember member => member.location

def name : Declaration → String
  | enum _ name _ | interface _ name _ _ | typeAlias _ name _ | other _ name _
  | foreign _ name _ => name
  | enumMember member => member.name

/-- The name under which references find the declaration. -/
def qualifiedName : Declaration → String
  | enumMember member => member.qualifiedName
  | declaration => declaration.name

def description : Declaration → String
  | enum _ _ _ => "EnumDeclaration"
  | enumMember _ => "EnumMemberDeclaration"
  | interface _ _ _ _ => "InterfaceDeclaration"
  | typeAlias _ _ _ => "type alias"
  | other _ _ kind => if kind = "" then "declaration" else kind
  | foreign _ _ word => word

end Declaration

structure Parameter where
  location : Option Location
  name : String
  type : Option TypeExpr
  optional : Bool

structure Signature where
  location : Option Location
  name : String
  parameters : List Parameter
  returnType : Option TypeExpr

structure Document where
  declarations : List Declaration
  functions : List Signature
  sourceFile : String

/-- Any node that a failure can be about. -/
inductive Node where
  | type (type : TypeExpr)
  | literal (literal : Literal)
  | name (name : PropertyName)
  | member (member : Member)
  | declaration (declaration : Declaration)
  | parameter (parameter : Parameter)
  | signature (signature : Signature)

def Node.location : Node → Option Location
  | type node => node.location
  | literal node => node.location
  | name node => node.location
  | member node => node.location
  | declaration node => node.location
  | parameter node => node.location
  | signature node => node.location

end TypeSchema
