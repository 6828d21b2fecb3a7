import TypeSchema.Source.Unlocated

/-!
# What source says

Locations say nothing about types, nor do parentheses, the type arguments of references or the types
that interfaces extend. What remains of a tree without them is what it says.
-/

namespace TypeSchema

mutual

/-- A type expression without locations, parentheses and type arguments. -/
def TypeExpr.stripped : TypeExpr → TypeExpr
  | .keyword _ keyword => .keyword none keyword
  | .literal _ literal => .literal none literal.unlocated
  | .array _ element => .array none element.stripped
  | .union _ parts => .union none (TypeExpr.strippedAll parts)
  | .intersection _ parts => .intersection none (TypeExpr.strippedAll parts)
  | .parenthesized _ inner => inner.stripped
  | .tuple _ elements => .tuple none (TypeExpr.strippedAll elements)
  | .object _ members => .object none (Member.strippedAll members)
  | .reference _ name _ => .reference none name []
  | .unsupported _ kind => .unsupported none kind
  | .foreign _ word => .foreign none word

def TypeExpr.strippedAll : List TypeExpr → List TypeExpr
  | [] => []
  | type :: rest => type.stripped :: TypeExpr.strippedAll rest

def TypeExpr.strippedOption : Option TypeExpr → Option TypeExpr
  | none => none
  | some type => some type.stripped

def Member.stripped : Member → Member
  | .property _ name type optional =>
    .property none name.unlocated (TypeExpr.strippedOption type) optional
  | .index _ parameter key type =>
    .index none parameter (TypeExpr.strippedOption key) (TypeExpr.strippedOption type)
  | .other _ kind name => .other none kind (name.map PropertyName.unlocated)
  | .foreign _ word => .foreign none word

def Member.strippedAll : List Member → List Member
  | [] => []
  | member :: rest => member.stripped :: Member.strippedAll rest

end

theorem TypeExpr.strippedAll_eq_map (types : List TypeExpr) :
    strippedAll types = types.map stripped := by
  induction types with
  | nil => rfl
  | cons type rest ih => rw [strippedAll, List.map_cons, ih]

theorem Member.strippedAll_eq_map (members : List Member) :
    strippedAll members = members.map stripped := by
  induction members with
  | nil => rfl
  | cons member rest ih => rw [strippedAll, List.map_cons, ih]

def Declaration.stripped : Declaration → Declaration
  | .enum _ name members => .enum none name (members.map EnumMember.unlocated)
  | .enumMember member => .enumMember member.unlocated
  | .interface _ name members _ => .interface none name (members.map Member.stripped) []
  | .typeAlias _ name type => .typeAlias none name type.stripped
  | .other _ name kind => .other none name kind
  | .foreign _ name word => .foreign none name word

mutual

/-- No parentheses stand around a type that would be resolved with the type expression. -/
def TypeExpr.isUnwrapped : TypeExpr → Bool
  | .parenthesized _ _ => false
  | .array _ element => element.isUnwrapped
  | .union _ parts => TypeExpr.areUnwrapped parts
  | .intersection _ parts => TypeExpr.areUnwrapped parts
  | .tuple _ elements => TypeExpr.areUnwrapped elements
  | .object _ members => Member.areUnwrapped members
  | .keyword _ _ | .literal _ _ | .reference _ _ _ | .unsupported _ _ | .foreign _ _ => true

def TypeExpr.areUnwrapped : List TypeExpr → Bool
  | [] => true
  | type :: rest => type.isUnwrapped && TypeExpr.areUnwrapped rest

def TypeExpr.isUnwrappedOption : Option TypeExpr → Bool
  | none => true
  | some type => type.isUnwrapped

def Member.isUnwrapped : Member → Bool
  | .property _ _ type _ => TypeExpr.isUnwrappedOption type
  | .index _ _ _ _ | .other _ _ _ | .foreign _ _ => true

def Member.areUnwrapped : List Member → Bool
  | [] => true
  | member :: rest => member.isUnwrapped && Member.areUnwrapped rest

end

theorem TypeExpr.areUnwrapped_iff {types : List TypeExpr} :
    areUnwrapped types ↔ ∀ type ∈ types, type.isUnwrapped := by
  induction types with
  | nil => simp [areUnwrapped]
  | cons type rest ih => simp [areUnwrapped, ih]

theorem Member.areUnwrapped_iff {members : List Member} :
    areUnwrapped members ↔ ∀ member ∈ members, member.isUnwrapped := by
  induction members with
  | nil => simp [areUnwrapped]
  | cons member rest ih => simp [areUnwrapped, ih]

def Declaration.isUnwrapped : Declaration → Bool
  | .interface _ _ members _ => members.all Member.isUnwrapped
  | .typeAlias _ _ type => type.isUnwrapped
  | .enum _ _ _ | .enumMember _ | .other _ _ _ | .foreign _ _ _ => true

/-! ### Stripped trees

Nothing remains to be taken off a stripped tree, so whatever stands in source can be said without
parentheses.
-/

mutual

theorem TypeExpr.stripped_stripped : ∀ type : TypeExpr, type.stripped.stripped = type.stripped
  | .keyword _ _ | .literal _ _ | .reference _ _ _ | .unsupported _ _ | .foreign _ _ => rfl
  | .parenthesized _ inner => TypeExpr.stripped_stripped inner
  | .array _ element => congrArg (TypeExpr.array none) (TypeExpr.stripped_stripped element)
  | .union _ parts => congrArg (TypeExpr.union none) (TypeExpr.strippedAll_strippedAll parts)
  | .intersection _ parts =>
      congrArg (TypeExpr.intersection none) (TypeExpr.strippedAll_strippedAll parts)
  | .tuple _ elements =>
      congrArg (TypeExpr.tuple none) (TypeExpr.strippedAll_strippedAll elements)
  | .object _ members => congrArg (TypeExpr.object none) (Member.strippedAll_strippedAll members)

theorem TypeExpr.strippedAll_strippedAll : ∀ types : List TypeExpr,
    TypeExpr.strippedAll (TypeExpr.strippedAll types) = TypeExpr.strippedAll types
  | [] => rfl
  | type :: rest =>
      congrArg₂ List.cons (TypeExpr.stripped_stripped type) (TypeExpr.strippedAll_strippedAll rest)

theorem TypeExpr.strippedOption_strippedOption : ∀ type : Option TypeExpr,
    TypeExpr.strippedOption (TypeExpr.strippedOption type) = TypeExpr.strippedOption type
  | none => rfl
  | some type => congrArg some (TypeExpr.stripped_stripped type)

theorem Member.stripped_stripped : ∀ member : Member, member.stripped.stripped = member.stripped
  | .property _ name type optional =>
      congrArg (Member.property none name.unlocated · optional)
        (TypeExpr.strippedOption_strippedOption type)
  | .index _ parameter key type =>
      congrArg₂ (Member.index none parameter) (TypeExpr.strippedOption_strippedOption key)
        (TypeExpr.strippedOption_strippedOption type)
  | .other _ _ none | .other _ _ (some _) | .foreign _ _ => rfl

theorem Member.strippedAll_strippedAll : ∀ members : List Member,
    Member.strippedAll (Member.strippedAll members) = Member.strippedAll members
  | [] => rfl
  | member :: rest =>
      congrArg₂ List.cons (Member.stripped_stripped member) (Member.strippedAll_strippedAll rest)

end

mutual

theorem TypeExpr.isUnwrapped_stripped : ∀ type : TypeExpr, type.stripped.isUnwrapped
  | .keyword _ _ | .literal _ _ | .reference _ _ _ | .unsupported _ _ | .foreign _ _ => rfl
  | .parenthesized _ inner => TypeExpr.isUnwrapped_stripped inner
  | .array _ element => TypeExpr.isUnwrapped_stripped element
  | .union _ parts => TypeExpr.areUnwrapped_strippedAll parts
  | .intersection _ parts => TypeExpr.areUnwrapped_strippedAll parts
  | .tuple _ elements => TypeExpr.areUnwrapped_strippedAll elements
  | .object _ members => Member.areUnwrapped_strippedAll members

theorem TypeExpr.areUnwrapped_strippedAll : ∀ types : List TypeExpr,
    TypeExpr.areUnwrapped (TypeExpr.strippedAll types)
  | [] => rfl
  | type :: rest =>
      Bool.and_eq_true_iff.mpr
        ⟨TypeExpr.isUnwrapped_stripped type, TypeExpr.areUnwrapped_strippedAll rest⟩

theorem Member.isUnwrapped_stripped : ∀ member : Member, member.stripped.isUnwrapped
  | .property _ _ (some type) _ => TypeExpr.isUnwrapped_stripped type
  | .property _ _ none _ | .index _ _ _ _ | .other _ _ _ | .foreign _ _ => rfl

theorem Member.areUnwrapped_strippedAll : ∀ members : List Member,
    Member.areUnwrapped (Member.strippedAll members)
  | [] => rfl
  | member :: rest =>
      Bool.and_eq_true_iff.mpr
        ⟨Member.isUnwrapped_stripped member, Member.areUnwrapped_strippedAll rest⟩

end

theorem EnumMember.unlocated_unlocated (member : EnumMember) :
    member.unlocated.unlocated = member.unlocated := by
  unfold unlocated
  cases member.initializer <;> rfl

theorem Declaration.stripped_stripped (declaration : Declaration) :
    declaration.stripped.stripped = declaration.stripped := by
  cases declaration with
  | enum location name members =>
      have htwice : EnumMember.unlocated ∘ EnumMember.unlocated = EnumMember.unlocated :=
        funext EnumMember.unlocated_unlocated
      rw [stripped, stripped, List.map_map, htwice]
  | enumMember member => rw [stripped, stripped, member.unlocated_unlocated]
  | interface location name members bases =>
      have htwice : Member.stripped ∘ Member.stripped = Member.stripped :=
        funext Member.stripped_stripped
      rw [stripped, stripped, List.map_map, htwice]
  | typeAlias location name type => rw [stripped, stripped, type.stripped_stripped]
  | _ => rfl

theorem Declaration.isUnwrapped_stripped (declaration : Declaration) :
    declaration.stripped.isUnwrapped := by
  cases declaration with
  | interface location name members bases =>
      rw [stripped, isUnwrapped, List.all_map]
      exact List.all_eq_true.mpr fun member _ => member.isUnwrapped_stripped
  | typeAlias location name type => exact type.isUnwrapped_stripped
  | _ => rfl

end TypeSchema
