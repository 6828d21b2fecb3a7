import TypeSchema.Proofs.Format.Rules

/-!
# What is read is in range

A tree is in range exactly if its parts are, for types under a budget that is smaller by one. As
the reader of types hands the same smaller budget to the types inside, an induction on the budget
goes through the rules of reading one by one. Kinds that a table of the format tells are never
those that the format has no words for.
-/

namespace TypeSchema

variable {budget : Nat} {location : Option Location}

/-! ### Parts in range -/

namespace TypeExpr

theorem inRange_keyword {keyword : Keyword} :
    (TypeExpr.keyword location keyword).InRange (budget + 1) := by
  simp [inRange_iff, isRegular, depth]

theorem inRange_unsupported_iff {kind : String} :
    (TypeExpr.unsupported location kind).InRange (budget + 1) ↔ Format.isOtherType kind := by
  simp [inRange_iff, isRegular, depth]

theorem inRange_literal_iff {literal : Literal} :
    (TypeExpr.literal location literal).InRange (budget + 1) ↔ literal.kind ≠ .expression := by
  simp [inRange_iff, isRegular, depth]

theorem inRange_array_iff {element : TypeExpr} :
    (TypeExpr.array location element).InRange (budget + 1) ↔ element.InRange budget := by
  simp [inRange_iff, isRegular, depth]

theorem inRange_parenthesized_iff {inner : TypeExpr} :
    (TypeExpr.parenthesized location inner).InRange (budget + 1) ↔ inner.InRange budget := by
  simp [inRange_iff, isRegular, depth]

/-- A type that consists of types is in range if they are. -/
theorem inRange_iff_parts {type : TypeExpr} {parts : List TypeExpr}
    (regular : type.isRegular = areRegular parts) (nested : type.depth = depthOfAll parts + 1) :
    type.InRange (budget + 1) ↔ ∀ part ∈ parts, part.InRange budget := by
  rw [inRange_iff, regular, nested, Nat.add_le_add_iff_right, areRegular_iff, depthOfAll_le_iff]
  simp only [inRange_iff, ← forall_and]

theorem inRange_union_iff {parts : List TypeExpr} :
    (TypeExpr.union location parts).InRange (budget + 1) ↔
      ∀ part ∈ parts, part.InRange budget :=
  inRange_iff_parts rfl rfl

theorem inRange_intersection_iff {parts : List TypeExpr} :
    (TypeExpr.intersection location parts).InRange (budget + 1) ↔
      ∀ part ∈ parts, part.InRange budget :=
  inRange_iff_parts rfl rfl

theorem inRange_tuple_iff {elements : List TypeExpr} :
    (TypeExpr.tuple location elements).InRange (budget + 1) ↔
      ∀ element ∈ elements, element.InRange budget :=
  inRange_iff_parts rfl rfl

theorem inRange_reference_iff {name : String} {arguments : List TypeExpr} :
    (TypeExpr.reference location name arguments).InRange (budget + 1) ↔
      ∀ argument ∈ arguments, argument.InRange budget :=
  inRange_iff_parts rfl rfl

theorem inRange_object_iff {members : List Member} :
    (TypeExpr.object location members).InRange (budget + 1) ↔
      ∀ member ∈ members, member.InRange budget := by
  rw [inRange_iff, isRegular, depth, Nat.add_le_add_iff_right, Member.areRegular_iff,
    Member.depthOfAll_le_iff]
  simp only [Member.inRange_iff, Member.depth_le_iff, ← forall_and]

end TypeExpr

namespace Member

theorem inRange_property_iff {name : PropertyName} {type : Option TypeExpr} {optional : Bool} :
    (Member.property location name type optional).InRange budget ↔
      name.isRegular ∧ ∀ inner ∈ type, inner.InRange budget := by
  simp only [inRange_iff, isRegular, types, Bool.and_eq_true, TypeExpr.isRegularOption_iff,
    Option.mem_toList, TypeExpr.inRange_iff, and_assoc, ← forall_and, Option.mem_def]

theorem inRange_index_iff {parameter : String} {key type : Option TypeExpr} :
    (Member.index location parameter key type).InRange budget ↔
      (∀ inner ∈ key, inner.InRange budget) ∧ ∀ inner ∈ type, inner.InRange budget := by
  simp only [inRange_iff, isRegular, types, Bool.and_eq_true, TypeExpr.isRegularOption_iff,
    List.forall_mem_append, Option.mem_toList, TypeExpr.inRange_iff, forall_and, Option.mem_def]
  tauto

theorem inRange_other_iff {kind : String} {name : Option PropertyName} :
    (Member.other location kind name).InRange budget ↔
      kind ∈ Format.otherMemberKinds ∧ ∀ inner ∈ name, inner.isRegular := by
  cases name <;> simp [inRange_iff, isRegular, types]

end Member

namespace Declaration

variable {name : String}

theorem inRange_enum_iff {members : List EnumMember} :
    (Declaration.enum location name members).InRange budget ↔
      ∀ member ∈ members, member.isRegular name := by
  simp [inRange_iff, isRegular, types]

theorem inRange_interface_iff {members : List Member} {bases : List BaseType} :
    (Declaration.interface location name members bases).InRange budget ↔
      (∀ base ∈ bases, base.type.InRange budget) ∧ ∀ member ∈ members, member.InRange budget := by
  simp only [inRange_iff, isRegular, types, Bool.and_eq_true, List.all_eq_true,
    List.forall_mem_append, List.forall_mem_map, List.forall_mem_flatMap, Member.inRange_iff,
    TypeExpr.inRange_iff, forall_and]
  tauto

theorem inRange_typeAlias_iff {type : TypeExpr} :
    (Declaration.typeAlias location name type).InRange budget ↔ type.InRange budget := by
  simp [inRange_iff, isRegular, types, TypeExpr.inRange_iff]

theorem inRange_other_iff {kind : String} :
    (Declaration.other location name kind).InRange budget ↔ Format.isOtherDeclaration kind := by
  simp [inRange_iff, isRegular, types]

end Declaration

theorem Signature.inRange_iff_parts {signature : Signature} :
    signature.InRange budget ↔
      (∀ parameter ∈ signature.parameters, ∀ type ∈ parameter.type, type.InRange budget) ∧
        ∀ type ∈ signature.returnType, type.InRange budget := by
  simp only [inRange_iff, isRegular, types, Bool.and_eq_true, List.all_eq_true,
    Option.all_eq_true, List.forall_mem_append, List.forall_mem_flatMap, Option.mem_toList,
    TypeExpr.inRange_iff, forall_and, Option.mem_def]
  tauto

theorem Document.inRange_iff_parts {document : Document} :
    document.InRange budget ↔
      (∀ declaration ∈ document.declarations, declaration.InRange budget) ∧
        ∀ signature ∈ document.functions, signature.InRange budget := by
  simp only [inRange_iff, isRegular, types, Bool.and_eq_true, List.all_eq_true,
    List.forall_mem_append, List.forall_mem_flatMap, Declaration.inRange_iff,
    Signature.inRange_iff, forall_and]
  tauto

/-! ### Readings -/

namespace Format

variable {scope : Scope} {json : Json} {pointer : Pointer}

theorem ne_expression_of_lookup {kind : String} {literalKind : LiteralKind}
    (h : literalKinds.lookup kind = some literalKind) : literalKind ≠ .expression := by
  have hall : ∀ entry ∈ literalKinds, entry.2 ≠ .expression := by decide
  exact hall _ (mem_of_lookup h)

theorem isRegular_of_lookup {kind text : String} {nameKind : NameKind}
    (h : nameKinds.lookup kind = some nameKind) :
    (⟨nameKind, text, location⟩ : PropertyName).isRegular := by
  have hall : ∀ entry ∈ nameKinds, (⟨entry.2, "", none⟩ : PropertyName).isRegular := by decide
  exact hall _ (mem_of_lookup h)

theorem readLiteral_inRange {literal : Literal}
    (h : readLiteral scope json pointer = .ok literal) : literal.kind ≠ .expression := by
  obtain ⟨kind, literalKind, -, hlookup, h⟩ := readLiteral_eq_ok_iff.mp h
  obtain ⟨text, location, -, -, rfl⟩ := readLiteralOf_eq_ok_iff.mp h
  exact ne_expression_of_lookup hlookup

theorem readName_inRange {name : PropertyName} (h : readName scope json pointer = .ok name) :
    name.isRegular := by
  cases readName_eq_ok_iff.mp h with
  | short => rfl
  | node _ known _ => exact isRegular_of_lookup known

/-- A reader of types that yields nothing but types in range. -/
def StaysInRange (reader : TypeReader) (budget : Nat) : Prop :=
  ∀ json pointer type, reader json pointer = .ok type → type.InRange budget

variable {reader : TypeReader}

theorem readMember_inRange (hread : StaysInRange reader budget) {member : Member}
    (h : readMember scope reader json pointer = .ok member) : member.InRange budget := by
  cases readMember_eq_ok_iff.mp h with
  | property _ _ named typed =>
      exact Member.inRange_property_iff.mpr
        ⟨readName_inRange named, forall_of_readOptional hread typed⟩
  | index _ _ _ _ _ _ keyed typed =>
      exact Member.inRange_index_iff.mpr
        ⟨forall_of_readOptional hread keyed, forall_of_readOptional hread typed⟩
  | other _ known _ named =>
      exact Member.inRange_other_iff.mpr
        ⟨known, forall_of_readOptional (fun _ _ _ => readName_inRange) named⟩

theorem readType_inRange (scope : Scope) (budget : Nat) :
    StaysInRange (readType scope budget) budget := by
  induction budget with
  | zero =>
      intro json pointer type h
      exact absurd h fail_ne_ok
  | succ budget ih =>
      intro json pointer type h
      obtain ⟨kind, location, hkind, -, hrule⟩ := readTypeStep_eq_ok_iff.mp h
      cases hrule with
      | keyword known => exact TypeExpr.inRange_keyword
      | literal part =>
          obtain ⟨value, -, hvalue⟩ := readRequired_eq_ok_iff.mp part
          exact TypeExpr.inRange_literal_iff.mpr (readLiteral_inRange hvalue)
      | array part =>
          obtain ⟨value, -, hvalue⟩ := readRequired_eq_ok_iff.mp part
          exact TypeExpr.inRange_array_iff.mpr (ih _ _ _ hvalue)
      | parenthesized part =>
          obtain ⟨value, -, hvalue⟩ := readRequired_eq_ok_iff.mp part
          exact TypeExpr.inRange_parenthesized_iff.mpr (ih _ _ _ hvalue)
      | union parts => exact TypeExpr.inRange_union_iff.mpr (forall_of_readAll ih parts)
      | intersection parts =>
          exact TypeExpr.inRange_intersection_iff.mpr (forall_of_readAll ih parts)
      | tuple parts => exact TypeExpr.inRange_tuple_iff.mpr (forall_of_readAll ih parts)
      | object parts =>
          exact TypeExpr.inRange_object_iff.mpr
            (forall_of_readAll (fun _ _ _ => readMember_inRange ih) parts)
      | reference _ parts => exact TypeExpr.inRange_reference_iff.mpr (forall_of_readAll ih parts)
      | unsupported unknown other =>
          refine TypeExpr.inRange_unsupported_iff.mpr ?_
          simp [isOtherType, (readKind_eq_ok_iff.mp hkind).2, unknown, other]

theorem readEnumMember_inRange {enumName : String} {member : EnumMember}
    (h : readEnumMember scope enumName json pointer = .ok member) : member.isRegular enumName := by
  obtain ⟨name, initializer, location, -, hname, -, -, rfl⟩ := readEnumMember_eq_ok_iff.mp h
  simp [EnumMember.isRegular, readName_inRange hname]

theorem readBase_inRange (hread : StaysInRange reader budget) {base : BaseType}
    (h : readBase reader json pointer = .ok base) : base.type.InRange budget :=
  hread _ _ _ (readBase_eq_ok_iff.mp h)

theorem readDeclaration_inRange {declaration : Declaration}
    (h : readDeclaration scope budget json pointer = .ok declaration) :
    declaration.InRange budget := by
  have hread := readType_inRange scope budget
  obtain ⟨kind, name, location, hkind, -, -, hrule⟩ := readDeclarationWith_eq_ok_iff.mp h
  cases hrule with
  | enum parts =>
      exact Declaration.inRange_enum_iff.mpr
        (forall_of_readAll (fun _ _ _ => readEnumMember_inRange) parts)
  | interface extended parts =>
      exact Declaration.inRange_interface_iff.mpr
        ⟨forall_of_readAll (fun _ _ _ => readBase_inRange hread) extended,
          forall_of_readAll (fun _ _ _ => readMember_inRange hread) parts⟩
  | typeAlias part =>
      obtain ⟨value, -, hvalue⟩ := readRequired_eq_ok_iff.mp part
      exact Declaration.inRange_typeAlias_iff.mpr (hread _ _ _ hvalue)
  | other other =>
      refine Declaration.inRange_other_iff.mpr ?_
      simp [isOtherDeclaration, (readKind_eq_ok_iff.mp hkind).2, other]

theorem readParameter_inRange (hread : StaysInRange reader budget) {parameter : Parameter}
    (h : readParameter scope reader json pointer = .ok parameter) :
    ∀ type ∈ parameter.type, type.InRange budget := by
  obtain ⟨name, type, location, -, -, htype, -, rfl⟩ := readParameter_eq_ok_iff.mp h
  exact forall_of_readOptional hread htype

theorem readSignature_inRange {signature : Signature}
    (h : readSignature scope budget json pointer = .ok signature) : signature.InRange budget := by
  have hread := readType_inRange scope budget
  obtain ⟨parameters, name, returnType, location, -, hparameters, -, hreturn, -, rfl⟩ :=
    readSignatureWith_eq_ok_iff.mp h
  exact Signature.inRange_iff_parts.mpr
    ⟨forall_of_readAll (fun _ _ _ => readParameter_inRange hread) hparameters,
      forall_of_readOptional hread hreturn⟩

/-- Whatever document is read is in range. -/
theorem readDocumentWithin_inRange {document : Document}
    (h : readDocumentWithin scope budget json = .ok document) : document.InRange budget := by
  obtain ⟨declarations, functions, -, hdeclarations, hfunctions, rfl⟩ :=
    readDocumentWithin_eq_ok_iff.mp h
  refine Document.inRange_iff_parts.mpr ⟨?_, ?_⟩
  · refine forall_of_readAll (fun _ _ _ hread => ?_) hdeclarations
    exact readDeclaration_inRange (atOutermost_eq_ok_iff.mp hread)
  · refine forall_of_readAll (fun _ _ _ hread => ?_) hfunctions
    exact readSignature_inRange (atOutermost_eq_ok_iff.mp hread)

end Format

end TypeSchema
