import Mathlib.Tactic.MkIffOfInductiveProp
import TypeSchema.Format.Basic
import TypeSchema.Source.Nesting

/-!
# The trees that documents stand for

Documents have no words for some trees: those with foreign nodes, with kinds that mean something
else, with an expression in place of a literal type, or with an enum member that is named unlike
its declaration says. All other trees are regular. A regular tree is in the range of reading when
its types are not nested deeper than is read.
-/

namespace TypeSchema

namespace Format

/-- The kinds of types that are not keywords. -/
def typeKinds : List String :=
  ["LiteralType", "ArrayType", "UnionType", "IntersectionType", "ParenthesizedType", "TupleType",
   "TypeLiteral", "TypeReference"]

def declarationKinds : List String :=
  ["EnumDeclaration", "InterfaceDeclaration", "TypeAliasDeclaration"]

/-- A kind of types that the format has no structure for. -/
def isOtherType (kind : String) : Bool :=
  kind ≠ "" && (keywordKinds.lookup kind).isNone && kind ∉ typeKinds

/-- A kind of declarations that the format has no structure for. -/
def isOtherDeclaration (kind : String) : Bool := kind ≠ "" && kind ∉ declarationKinds

end Format

open Format

/-! ### Regular trees -/

def PropertyName.isRegular (name : PropertyName) : Bool :=
  match name.kind with
  | .foreign _ => false
  | _ => true

mutual

def TypeExpr.isRegular : TypeExpr → Bool
  | .keyword _ _ => true
  | .literal _ literal => literal.kind ≠ .expression
  | .array _ inner => inner.isRegular
  | .parenthesized _ inner => inner.isRegular
  | .union _ parts => TypeExpr.areRegular parts
  | .intersection _ parts => TypeExpr.areRegular parts
  | .tuple _ elements => TypeExpr.areRegular elements
  | .object _ members => Member.areRegular members
  | .reference _ _ arguments => TypeExpr.areRegular arguments
  | .unsupported _ kind => isOtherType kind
  | .foreign _ _ => false

def TypeExpr.areRegular : List TypeExpr → Bool
  | [] => true
  | type :: rest => type.isRegular && TypeExpr.areRegular rest

def TypeExpr.isRegularOption : Option TypeExpr → Bool
  | none => true
  | some type => type.isRegular

def Member.isRegular : Member → Bool
  | .property _ name type _ => name.isRegular && TypeExpr.isRegularOption type
  | .index _ _ key type => TypeExpr.isRegularOption key && TypeExpr.isRegularOption type
  | .other _ kind name => kind ∈ otherMemberKinds && name.all PropertyName.isRegular
  | .foreign _ _ => false

def Member.areRegular : List Member → Bool
  | [] => true
  | member :: rest => member.isRegular && Member.areRegular rest

end

theorem TypeExpr.areRegular_iff {types : List TypeExpr} :
    areRegular types ↔ ∀ type ∈ types, type.isRegular := by
  induction types with
  | nil => simp [areRegular]
  | cons type rest ih => simp [areRegular, ih]

theorem TypeExpr.isRegularOption_iff {type : Option TypeExpr} :
    isRegularOption type ↔ ∀ inner ∈ type, inner.isRegular := by
  cases type <;> simp [isRegularOption]

theorem Member.areRegular_iff {members : List Member} :
    areRegular members ↔ ∀ member ∈ members, member.isRegular := by
  induction members with
  | nil => simp [areRegular]
  | cons member rest ih => simp [areRegular, ih]

/-- A member of the enum of the given name that is itself named as its declaration says. -/
def EnumMember.isRegular (enumName : String) (member : EnumMember) : Bool :=
  member.enumName = enumName && member.name = member.memberName.text &&
    member.memberName.isRegular

/-- The reference by which an interface names a type that it extends. -/
def BaseType.type (base : BaseType) : TypeExpr :=
  .reference base.location base.name base.arguments

def Declaration.isRegular : Declaration → Bool
  | .enum _ name members => members.all (EnumMember.isRegular name)
  | .interface _ _ members bases =>
    members.all Member.isRegular && bases.all fun base => base.type.isRegular
  | .typeAlias _ _ type => type.isRegular
  | .other _ _ kind => isOtherDeclaration kind
  | .enumMember _ | .foreign _ _ _ => false

def Signature.isRegular (signature : Signature) : Bool :=
  signature.parameters.all (fun parameter => parameter.type.all TypeExpr.isRegular) &&
    signature.returnType.all TypeExpr.isRegular

def Document.isRegular (document : Document) : Bool :=
  document.declarations.all Declaration.isRegular && document.functions.all Signature.isRegular

/-! ### Nesting -/

/-- The outermost type expressions in a member. -/
def Member.types : Member → List TypeExpr
  | .property _ _ type _ => type.toList
  | .index _ _ key type => key.toList ++ type.toList
  | .other _ _ _ | .foreign _ _ => []

def Declaration.types : Declaration → List TypeExpr
  | .interface _ _ members bases => bases.map BaseType.type ++ members.flatMap Member.types
  | .typeAlias _ _ type => [type]
  | .enum _ _ _ | .enumMember _ | .other _ _ _ | .foreign _ _ _ => []

def Signature.types (signature : Signature) : List TypeExpr :=
  signature.parameters.flatMap (fun parameter => parameter.type.toList) ++
    signature.returnType.toList

def Document.types (document : Document) : List TypeExpr :=
  document.declarations.flatMap Declaration.types ++ document.functions.flatMap Signature.types

theorem Member.depth_le_iff {member : Member} {budget : Nat} :
    member.depth ≤ budget ↔ ∀ type ∈ member.types, type.depth ≤ budget := by
  have hoption : ∀ type : Option TypeExpr,
      TypeExpr.depthOfOption type ≤ budget ↔ ∀ inner ∈ type, inner.depth ≤ budget := by
    intro type
    cases type <;> simp [TypeExpr.depthOfOption]
  cases member with
  | property _ _ type _ => simp [depth, types, hoption]
  | index _ _ key type =>
      rw [depth, Nat.max_le, hoption, hoption, types, List.forall_mem_append]
      simp only [Option.mem_toList, Option.mem_def]
  | _ => simp [depth, types]

/-! ### Range -/

@[mk_iff]
structure TypeExpr.InRange (budget : Nat) (type : TypeExpr) : Prop where
  regular : type.isRegular
  shallow : type.depth ≤ budget

@[mk_iff]
structure Member.InRange (budget : Nat) (member : Member) : Prop where
  regular : member.isRegular
  shallow : ∀ type ∈ member.types, type.depth ≤ budget

@[mk_iff]
structure Declaration.InRange (budget : Nat) (declaration : Declaration) : Prop where
  regular : declaration.isRegular
  shallow : ∀ type ∈ declaration.types, type.depth ≤ budget

@[mk_iff]
structure Signature.InRange (budget : Nat) (signature : Signature) : Prop where
  regular : signature.isRegular
  shallow : ∀ type ∈ signature.types, type.depth ≤ budget

/-- A document that is read: it is regular, and no type in it is nested deeper than the budget. -/
@[mk_iff]
structure Document.InRange (budget : Nat) (document : Document) : Prop where
  regular : document.isRegular
  shallow : ∀ type ∈ document.types, type.depth ≤ budget

end TypeSchema
