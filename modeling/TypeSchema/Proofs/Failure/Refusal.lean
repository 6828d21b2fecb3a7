import TypeSchema.Proofs.Denotation.Place

/-!
# What is refused

Every fault of a resolution is about one construct of the source: a leaf without a schema, a body
with a member that is no plain property or comes twice, a name without a usable declaration, an enum
with a member that is no literal. A node is refused with a fault when it is at fault by itself,
whatever stands inside it, behind it or before it. Which faults those are depends neither on the
reference mode nor on the state of the resolution.
-/

namespace TypeSchema

/-- What is wrong with a member of a body by itself. -/
inductive Member.Refused : Member → Failure → Prop
  | untypedProperty {location : Option Location} {name : PropertyName} {optional : Bool} :
      Refused (.property location name none optional)
        ⟨.memberWithoutType, some (.member (.property location name none optional))⟩
  | untypedIndex {location : Option Location} {parameter : String} {key : Option TypeExpr} :
      Refused (.index location parameter key none)
        ⟨.memberWithoutType, some (.member (.index location parameter key none))⟩
  | name {location : Option Location} {name : PropertyName} {type : TypeExpr} {optional : Bool}
      {failure : Failure} (nameless : name.plain = .error failure) :
      Refused (.property location name (some type) optional) failure
  | index {location : Option Location} {parameter : String} {key : Option TypeExpr}
      {type : TypeExpr} :
      Refused (.index location parameter key (some type))
        ⟨.indexSignature, some (.member (.index location parameter key (some type)))⟩
  | other {location : Option Location} {kind : String} {name : Option PropertyName} :
      Refused (.other location kind name)
        ⟨.unsupportedMember, some (.member (.other location kind name))⟩
  | foreign {location : Option Location} {word : String} :
      Refused (.foreign location word) ⟨.unsupportedMember, some (.member (.foreign location word))⟩

/-- What is wrong with the members of a body: one of them by itself, or the second of two with the
same name. -/
inductive Member.RefusedAmong (members : List Member) : Failure → Prop
  | member {member : Member} {failure : Failure} (mem : member ∈ members)
      (refused : member.Refused failure) : RefusedAmong members failure
  | duplicate {earlier later : Member} {name : String} (twice : [earlier, later].Sublist members)
      (before : earlier.name? = some name) (again : later.name? = some name) :
      RefusedAmong members ⟨.duplicateMember name, some (.member later)⟩

/-- What is wrong with a member of an enum: its name, or a type that is no literal. -/
inductive EnumMember.Refused (env : Environment) (member : EnumMember) : Failure → Prop
  | name {failure : Failure} (nameless : member.memberName.plain = .error failure) :
      Refused env member failure
  | value (valueless : (env.evaluateMember member).literalSchema? = none) :
      Refused env member
        ⟨.invalidEnumMember member.qualifiedName (env.evaluateMember member).flags,
          some (.declaration (.enumMember member))⟩

/-- What is wrong with a literal that stands as the given type. -/
inductive Literal.Refused (env : Environment) (node : Node) (literal : Literal) : Fault → Prop
  | unread {failure : Failure} (kind : literal.kind ∈ [.string, .numeric, .bigInt])
      (unread : env.evaluateLiteral literal = .error failure) :
      Refused env node literal (.failure failure)
  | notLiteral {evaluated : Evaluated} (kind : literal.kind ∈ [.string, .numeric])
      (read : env.evaluateLiteral literal = .ok evaluated)
      (valueless : evaluated.literalSchema? = none) :
      Refused env node literal (.failure ⟨.notLiteral evaluated.flags, some node⟩)
  | notBigInt {evaluated : Evaluated} (kind : literal.kind = .bigInt)
      (read : env.evaluateLiteral literal = .ok evaluated)
      (flagless : .bigIntLiteral ∉ evaluated.flags) :
      Refused env node literal (.failure ⟨.notBigInt literal.text, some node⟩)
  | notInteger {evaluated : Evaluated} {problem : Json.IntegerProblem}
      (kind : literal.kind = .bigInt) (read : env.evaluateLiteral literal = .ok evaluated)
      (flagged : .bigIntLiteral ∈ evaluated.flags)
      (broken : evaluated.value.toInteger = .error problem) :
      Refused env node literal (.notInteger problem)
  | unsupported
      (kind : literal.kind ∉ [.null, .trueLiteral, .falseLiteral, .string, .numeric, .bigInt]) :
      Refused env node literal (.failure ⟨.unsupportedLiteral literal.kind, some node⟩)

/-- What is wrong with a type expression or a declaration by itself. -/
inductive Node.Refused (env : Environment) (aliases : Bool) : Node → Fault → Prop
  | keyword {location : Option Location} {word : Keyword} (meaningless : word.schema? = none) :
      Refused env aliases (.type (.keyword location word))
        (.failure ⟨.unsupportedKeyword word, some (.type (.keyword location word))⟩)
  | literal {location : Option Location} {literal : Literal} {fault : Fault}
      (refused : literal.Refused env (.type (.literal location literal)) fault) :
      Refused env aliases (.type (.literal location literal)) fault
  | object {location : Option Location} {members : List Member} {failure : Failure}
      (refused : Member.RefusedAmong members failure) :
      Refused env aliases (.type (.object location members)) (.failure failure)
  | unresolved {location : Option Location} {name : String} {arguments : List TypeExpr}
      (missing : env.declarations name = []) :
      Refused env aliases (.type (.reference location name arguments))
        (.failure ⟨.unresolvedReference name, some (.type (.reference location name arguments))⟩)
  | unfollowed {location : Option Location} {name : String} {arguments : List TypeExpr}
      {first : Declaration} {others : List Declaration}
      (found : env.declarations name = first :: others) (stops : first.isFollowed aliases = false)
      (large : ∀ member, first ≠ .enumMember member) :
      Refused env aliases (.type (.reference location name arguments))
        (.failure ⟨.unsupportedReference name first.description,
          some (.type (.reference location name arguments))⟩)
  | enumMember {location : Option Location} {name : String} {arguments : List TypeExpr}
      {member : EnumMember} {others : List Declaration} {failure : Failure}
      (found : env.declarations name = .enumMember member :: others)
      (refused : member.Refused env failure) :
      Refused env aliases (.type (.reference location name arguments)) (.failure failure)
  | unsupported {location : Option Location} {kind : String} :
      Refused env aliases (.type (.unsupported location kind))
        (.failure ⟨.unsupportedType (if kind = "" then "unknown" else kind),
          some (.type (.unsupported location kind))⟩)
  | foreign {location : Option Location} {word : String} :
      Refused env aliases (.type (.foreign location word))
        (.failure ⟨.unsupportedType word, some (.type (.foreign location word))⟩)
  | enum {location : Option Location} {name : String} {members : List EnumMember}
      {member : EnumMember} {failure : Failure} (mem : member ∈ members)
      (refused : member.Refused env failure) :
      Refused env aliases (.declaration (.enum location name members)) (.failure failure)
  | interface {location : Option Location} {name : String} {members : List Member}
      {bases : List BaseType} {failure : Failure} (refused : Member.RefusedAmong members failure) :
      Refused env aliases (.declaration (.interface location name members bases))
        (.failure failure)

/-! ### Success refuses nothing -/

namespace Resolve

variable {env : Environment} {policy : Policy} {aliases : Bool} {R : Account TypeExpr Schema}
  {B : Account Declaration Schema} {c c' : Context} {schema : Schema} {fault : Fault}

theorem not_refused_of_literalSchema? {literal : Literal} {node : Node}
    (h : env.literalSchema? literal = some schema) : ¬ literal.Refused env node fault := by
  unfold Environment.literalSchema? at h
  intro hrefused
  cases hrefused with
  | unread kind unread =>
      cases hkind : literal.kind <;> simp_all [Except.toOption]
  | notLiteral kind read valueless =>
      cases hkind : literal.kind <;> simp_all [Except.toOption]
  | notBigInt kind read flagless => simp_all [Except.toOption]
  | notInteger kind read flagged broken => simp_all [Except.toOption]
  | unsupported kind => cases hkind : literal.kind <;> simp_all

theorem not_refused_of_memberSchema? {member : EnumMember} {failure : Failure}
    (h : env.memberSchema? member = some schema) : ¬ member.Refused env failure := by
  obtain ⟨text, value, hname, hvalue, -⟩ := Environment.memberSchema?_eq_some_iff.mp h
  intro hrefused
  cases hrefused with
  | name nameless => simp [nameless, Except.toOption] at hname
  | value valueless => simp [valueless] at hvalue

/-- The names of the members that were resolved are distinct and new. -/
theorem memberRule_names {seen : List String} {members : List Member} {schemas : List Schema}
    (h : MemberRule R seen members c schemas c') :
    (members.filterMap Member.name?).Nodup ∧
      ∀ name ∈ members.filterMap Member.name?, name ∉ seen := by
  induction h with
  | nil => simp
  | @cons seen _ _ text _ _ _ rest _ _ _ _ plain _ fresh _ ih =>
      obtain ⟨hnodup, hnew⟩ := ih
      have hnames : ∀ location name type optional, name.plain = .ok text →
          (Member.property location name type optional :: rest).filterMap Member.name? =
            text :: rest.filterMap Member.name? := by
        intro location name type optional hplain
        simp [Member.name?, hplain, Except.toOption]
      rw [hnames _ _ _ _ plain]
      refine ⟨List.nodup_cons.mpr ⟨fun hmem => hnew text hmem List.mem_cons_self, hnodup⟩, ?_⟩
      intro name hname
      obtain rfl | hname := List.mem_cons.mp hname
      · exact fresh
      · exact fun hseen => hnew name hname (List.mem_cons_of_mem text hseen)

theorem not_refused_of_memberRule {members : List Member} {schemas : List Schema}
    {seen : List String} {failure : Failure} (h : MemberRule R seen members c schemas c') :
    ¬ Member.RefusedAmong members failure := by
  intro hrefused
  cases hrefused with
  | duplicate twice before again =>
      have hnames := twice.filterMap Member.name?
      simp only [List.filterMap_cons, before, again, List.filterMap_nil] at hnames
      have hnodup := (memberRule_names h).1.sublist hnames
      simp at hnodup
  | member mem refused =>
      induction h with
      | nil => cases mem
      | cons plain _ _ _ ih =>
          obtain rfl | mem := List.mem_cons.mp mem
          · cases refused
            simp_all
          · exact ih mem

theorem not_refused_of_bodyRule {declaration : Declaration}
    (h : BodyRule env R declaration c schema c') :
    ¬ (Node.declaration declaration).Refused env aliases fault := by
  intro hrefused
  cases h with
  | enum values =>
      cases hrefused with
      | @enum _ _ _ _ failure mem refused =>
          have hmembers : List.Forall₂ (fun member schema => ¬ member.Refused env failure ∧
              env.memberSchema? member = some schema) _ _ :=
            values.imp fun _ _ hvalue => ⟨not_refused_of_memberSchema? hvalue, hvalue⟩
          exact ((List.forall₂_and_left _ _).mp hmembers).1 _ mem refused
  | interface contents =>
      cases hrefused with
      | interface refused => exact not_refused_of_memberRule contents refused
  | typeAlias _ => cases hrefused

theorem not_refused_of_typeRule {type : TypeExpr}
    (h : TypeRule env policy R B type c schema c') :
    ¬ (Node.type type).Refused env policy.aliases fault := by
  intro hrefused
  cases h with
  | keyword meaning =>
      cases hrefused with
      | keyword meaningless => simp [meaning] at meaningless
  | literal meaning =>
      cases hrefused with
      | literal refused => exact not_refused_of_literalSchema? meaning refused
  | object inner =>
      cases hrefused with
      | object refused => exact not_refused_of_memberRule inner refused
  | reference inner =>
      cases inner with
      | member found value _ =>
          cases hrefused with
          | unresolved missing => simp [found] at missing
          | unfollowed found' _ large =>
              obtain ⟨rfl, -⟩ := List.cons.inj (found.symm.trans found')
              exact large _ rfl
          | enumMember found' refused =>
              obtain ⟨hmember, -⟩ := List.cons.inj (found.symm.trans found')
              obtain rfl := Declaration.enumMember.inj hmember
              exact not_refused_of_memberSchema? value refused
      | definition found followed _ =>
          cases hrefused with
          | unresolved missing => simp [found] at missing
          | unfollowed found' stops _ =>
              obtain ⟨rfl, -⟩ := List.cons.inj (found.symm.trans found')
              simp [followed] at stops
          | enumMember found' _ =>
              obtain ⟨rfl, -⟩ := List.cons.inj (found.symm.trans found')
              simp [Declaration.isFollowed] at followed
  | _ => cases hrefused

end Resolve

end TypeSchema
