import Mathlib.Logic.Basic
import TypeSchema.Source.Declaration

/-!
# Trees without locations

What remains of a tree when all of its nodes forget where they come from.
-/

namespace TypeSchema

def Literal.unlocated (literal : Literal) : Literal := { literal with location := none }

def PropertyName.unlocated (name : PropertyName) : PropertyName := { name with location := none }

mutual

def TypeExpr.unlocated : TypeExpr → TypeExpr
  | .keyword _ keyword => .keyword none keyword
  | .literal _ literal => .literal none literal.unlocated
  | .array _ element => .array none element.unlocated
  | .union _ parts => .union none (TypeExpr.unlocatedAll parts)
  | .intersection _ parts => .intersection none (TypeExpr.unlocatedAll parts)
  | .parenthesized _ inner => .parenthesized none inner.unlocated
  | .tuple _ elements => .tuple none (TypeExpr.unlocatedAll elements)
  | .object _ members => .object none (Member.unlocatedAll members)
  | .reference _ name arguments => .reference none name (TypeExpr.unlocatedAll arguments)
  | .unsupported _ kind => .unsupported none kind
  | .foreign _ word => .foreign none word

def TypeExpr.unlocatedAll : List TypeExpr → List TypeExpr
  | [] => []
  | type :: rest => type.unlocated :: TypeExpr.unlocatedAll rest

def TypeExpr.unlocatedOption : Option TypeExpr → Option TypeExpr
  | none => none
  | some type => some type.unlocated

def Member.unlocated : Member → Member
  | .property _ name type optional =>
    .property none name.unlocated (TypeExpr.unlocatedOption type) optional
  | .index _ parameter key type =>
    .index none parameter (TypeExpr.unlocatedOption key) (TypeExpr.unlocatedOption type)
  | .other _ kind name => .other none kind (name.map PropertyName.unlocated)
  | .foreign _ word => .foreign none word

def Member.unlocatedAll : List Member → List Member
  | [] => []
  | member :: rest => member.unlocated :: Member.unlocatedAll rest

end

theorem TypeExpr.unlocatedAll_eq_map (types : List TypeExpr) :
    unlocatedAll types = types.map unlocated := by
  induction types with
  | nil => rfl
  | cons type rest ih => rw [unlocatedAll, List.map_cons, ih]

theorem TypeExpr.unlocatedOption_eq_map (type : Option TypeExpr) :
    unlocatedOption type = type.map unlocated := by
  cases type <;> rfl

theorem Member.unlocatedAll_eq_map (members : List Member) :
    unlocatedAll members = members.map unlocated := by
  induction members with
  | nil => rfl
  | cons member rest ih => rw [unlocatedAll, List.map_cons, ih]

mutual

theorem TypeExpr.depth_unlocated : ∀ type : TypeExpr, type.unlocated.depth = type.depth
  | .keyword _ _ | .literal _ _ | .unsupported _ _ | .foreign _ _ => rfl
  | .array _ inner => congrArg (· + 1) (TypeExpr.depth_unlocated inner)
  | .parenthesized _ inner => congrArg (· + 1) (TypeExpr.depth_unlocated inner)
  | .union _ types => congrArg (· + 1) (TypeExpr.depthOfAll_unlocatedAll types)
  | .intersection _ types => congrArg (· + 1) (TypeExpr.depthOfAll_unlocatedAll types)
  | .tuple _ types => congrArg (· + 1) (TypeExpr.depthOfAll_unlocatedAll types)
  | .reference _ _ types => congrArg (· + 1) (TypeExpr.depthOfAll_unlocatedAll types)
  | .object _ members => congrArg (· + 1) (Member.depthOfAll_unlocatedAll members)

theorem TypeExpr.depthOfAll_unlocatedAll : ∀ types : List TypeExpr,
    TypeExpr.depthOfAll (TypeExpr.unlocatedAll types) = TypeExpr.depthOfAll types
  | [] => rfl
  | type :: rest =>
      congrArg₂ max (TypeExpr.depth_unlocated type) (TypeExpr.depthOfAll_unlocatedAll rest)

theorem TypeExpr.depthOfOption_unlocatedOption : ∀ type : Option TypeExpr,
    TypeExpr.depthOfOption (TypeExpr.unlocatedOption type) = TypeExpr.depthOfOption type
  | none => rfl
  | some type => TypeExpr.depth_unlocated type

theorem Member.depth_unlocated : ∀ member : Member, member.unlocated.depth = member.depth
  | .property _ _ type _ => TypeExpr.depthOfOption_unlocatedOption type
  | .index _ _ key type =>
      congrArg₂ max (TypeExpr.depthOfOption_unlocatedOption key)
        (TypeExpr.depthOfOption_unlocatedOption type)
  | .other _ _ _ | .foreign _ _ => rfl

theorem Member.depthOfAll_unlocatedAll : ∀ members : List Member,
    Member.depthOfAll (Member.unlocatedAll members) = Member.depthOfAll members
  | [] => rfl
  | member :: rest =>
      congrArg₂ max (Member.depth_unlocated member) (Member.depthOfAll_unlocatedAll rest)

end

def EnumMember.unlocated (member : EnumMember) : EnumMember where
  location := none
  name := member.name
  enumName := member.enumName
  memberName := member.memberName.unlocated
  initializer := member.initializer.map Literal.unlocated

def BaseType.unlocated (base : BaseType) : BaseType :=
  ⟨none, base.name, base.arguments.map TypeExpr.unlocated⟩

def Declaration.unlocated : Declaration → Declaration
  | .enum _ name members => .enum none name (members.map EnumMember.unlocated)
  | .enumMember member => .enumMember member.unlocated
  | .interface _ name members bases =>
    .interface none name (members.map Member.unlocated) (bases.map BaseType.unlocated)
  | .typeAlias _ name type => .typeAlias none name type.unlocated
  | .other _ name kind => .other none name kind
  | .foreign _ name word => .foreign none name word

def Parameter.unlocated (parameter : Parameter) : Parameter :=
  ⟨none, parameter.name, parameter.type.map TypeExpr.unlocated, parameter.optional⟩

def Signature.unlocated (signature : Signature) : Signature where
  location := none
  name := signature.name
  parameters := signature.parameters.map Parameter.unlocated
  returnType := signature.returnType.map TypeExpr.unlocated

def Document.unlocated (document : Document) : Document where
  declarations := document.declarations.map Declaration.unlocated
  functions := document.functions.map Signature.unlocated
  sourceFile := document.sourceFile

end TypeSchema
