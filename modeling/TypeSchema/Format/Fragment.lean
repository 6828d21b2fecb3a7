import Mathlib.Logic.Relation
import TypeSchema.Format.Range
import TypeSchema.Format.Reader

/-!
# Fragments of documents

The nodes of a document in the roles in which they are read. A literal stands for a type or
initializes an enum member, and a name that an interface extends is read as a type. Every role has
its reader, and a fragment consists of the fragments that its reader reads on the way.
-/

namespace TypeSchema.Format

inductive Fragment where
  | signature (signature : Signature)
  | parameter (parameter : Parameter)
  | declaration (declaration : Declaration)
  | enumMember (member : EnumMember)
  | type (type : TypeExpr)
  | member (member : Member)
  | literal (literal : Literal)
  | initializer (literal : Literal)
  | name (name : PropertyName)

namespace Fragment

def location : Fragment → Option Location
  | signature node => node.location
  | parameter node => node.location
  | declaration node => node.location
  | enumMember node => node.location
  | type node => node.location
  | member node => node.location
  | literal node => node.location
  | initializer node => node.location
  | name node => node.location

def ofType : TypeExpr → List Fragment
  | .array _ inner | .parenthesized _ inner => [type inner]
  | .union _ types | .intersection _ types | .tuple _ types | .reference _ _ types =>
    types.map type
  | .literal _ inner => [literal inner]
  | .object _ members => members.map member
  | .keyword _ _ | .unsupported _ _ | .foreign _ _ => []

def ofMember : Member → List Fragment
  | .property _ text inner _ => name text :: inner.toList.map type
  | .index _ _ key inner => key.toList.map type ++ inner.toList.map type
  | .other _ _ text => text.toList.map name
  | .foreign _ _ => []

def ofEnumMember (node : EnumMember) : List Fragment :=
  name node.memberName :: node.initializer.toList.map initializer

def ofDeclaration : Declaration → List Fragment
  | .enum _ _ members => members.map enumMember
  | .enumMember node => ofEnumMember node
  | .interface _ _ members bases => bases.map (type ·.type) ++ members.map member
  | .typeAlias _ _ inner => [type inner]
  | .other _ _ _ | .foreign _ _ _ => []

/-- The fragments right inside a fragment. -/
def parts : Fragment → List Fragment
  | signature node => node.parameters.map parameter ++ node.returnType.toList.map type
  | parameter node => node.type.toList.map type
  | declaration node => ofDeclaration node
  | enumMember node => ofEnumMember node
  | type node => ofType node
  | member node => ofMember node
  | literal _ | initializer _ | name _ => []

/-- The fragment itself or, at any depth, a fragment inside it. -/
abbrev Holds : Fragment → Fragment → Prop :=
  Relation.ReflTransGen fun outer inner => inner ∈ outer.parts

/-- The reader for the role of the fragment reads it from the value that the pointer points to. -/
def IsReadFrom (scope : Scope) (budget : Nat) (json : Json) (pointer : Pointer) : Fragment → Prop
  | signature node => readSignature scope budget json pointer = .ok node
  | parameter node => readParameter scope (readType scope budget) json pointer = .ok node
  | declaration node => readDeclaration scope budget json pointer = .ok node
  | enumMember node => readEnumMember scope node.enumName json pointer = .ok node
  | type node => readType scope budget json pointer = .ok node
  | member node => readMember scope (readType scope budget) json pointer = .ok node
  | literal node => readLiteral scope json pointer = .ok node
  | initializer node => readInitializer scope json pointer = .ok node
  | name node => readName scope json pointer = .ok node

end Fragment

end TypeSchema.Format

namespace TypeSchema

open Format

/-- The fragments of a document, at any depth. -/
def Document.Holds (document : Document) (fragment : Fragment) : Prop :=
  (∃ declaration ∈ document.declarations, (Fragment.declaration declaration).Holds fragment) ∨
    ∃ signature ∈ document.functions, (Fragment.signature signature).Holds fragment

end TypeSchema
