import TypeSchema.Proofs.Constant.Values
import TypeSchema.Proofs.Failure.Support
import TypeSchema.Proofs.Format.Range
import TypeSchema.Proofs.Resolution.Locality

/-!
# Documents fail in foreseen ways

A resolution has branches for source that no document can stand for: nodes of a foreign family,
expressions in place of literals, declarations that references do not go on into, enum members that
no table has a value for. What is read from a document is regular, and so is everything that a type
expression reaches through the declarations of the document. A regular node is refused for a reason
that the document itself gives. Enum members are found through their enums only, so the table has a
value for each of them, and it does not matter what would be answered without one.
-/

namespace TypeSchema

/-! ### Regular nodes -/

/-- A node that a document can hold. -/
def Node.IsRegular : Node → Prop
  | .type expression => expression.isRegular
  | .declaration source => source.isRegular
  | _ => True

section Regular

variable {declarations : List Declaration} {aliases : Bool} {held : List String} {name : String}

theorem isRegular_of_mem_types {members : List Member} {inner : TypeExpr}
    (h : ∀ member ∈ members, member.isRegular) (mem : inner ∈ members.filterMap Member.type?) :
    inner.isRegular := by
  obtain ⟨member, hmember, htype⟩ := List.mem_filterMap.mp mem
  cases member with
  | property location name type optional =>
      obtain rfl : type = some inner := htype
      have hmember := h _ hmember
      rw [Member.isRegular, Bool.and_eq_true] at hmember
      exact hmember.2
  | _ => cases htype

theorem TypeExpr.isRegular_part {type inner : TypeExpr} (h : type.isRegular)
    (mem : inner ∈ type.parts) : inner.isRegular := by
  cases type with
  | array _ element | parenthesized _ element =>
      obtain rfl := List.mem_singleton.mp mem
      exact h
  | union _ types | intersection _ types | tuple _ types => exact areRegular_iff.mp h inner mem
  | object _ members => exact isRegular_of_mem_types (Member.areRegular_iff.mp h) mem
  | _ => cases mem

theorem Declaration.isRegular_part {declaration : Declaration} {inner : TypeExpr}
    (h : declaration.isRegular) (mem : inner ∈ declaration.parts) : inner.isRegular := by
  cases declaration with
  | interface _ _ members _ =>
      rw [isRegular, Bool.and_eq_true, List.all_eq_true] at h
      exact isRegular_of_mem_types h.1 mem
  | typeAlias _ _ type =>
      obtain rfl := List.mem_singleton.mp mem
      exact h
  | _ => cases mem

namespace DeclarationTable

variable {declaration : Declaration} {member : EnumMember}

/-- The members of regular enums stand in the enums that the table was made of. -/
theorem exists_enum_of_mem_declarations (h : ∀ source ∈ declarations, source.isRegular)
    (mem : declaration ∈ (ofList declarations).declarations name)
    (hmember : member ∈ declaration.enumMembers) :
    ∃ location enumName members, .enum location enumName members ∈ declarations ∧
      member ∈ members := by
  obtain ⟨source, hbinds⟩ := mem_declarations_iff_binds.mp mem
  obtain ⟨hsource, hentry⟩ := hbinds.enumMember hmember
  have hregular := h source hsource
  cases source with
  | enum location enumName members =>
      refine ⟨location, enumName, members, hsource, ?_⟩
      obtain hwhole | hpart := List.mem_cons.mp hentry
      · cases (Prod.mk.inj hwhole).2
      · obtain ⟨other, hother, hsame⟩ := List.mem_map.mp hpart
        obtain rfl := Declaration.enumMember.inj (Prod.mk.inj hsame).2
        exact hother
  -- A member that is declared by itself would be found, but without a value.
  | enumMember _ => cases hregular
  | _ => cases (Prod.mk.inj (List.mem_singleton.mp hentry)).2

/-- Every enum member that is found under a name has a value. -/
theorem value?_isSome (h : ∀ source ∈ declarations, source.isRegular)
    (mem : declaration ∈ (ofList declarations).declarations name)
    (hmember : member ∈ declaration.enumMembers) :
    ((ofList declarations).value? member.qualifiedName).isSome := by
  obtain ⟨location, enumName, members, hsource, hmember⟩ :=
    exists_enum_of_mem_declarations h mem hmember
  have hnamed : member.qualifiedName ∈ (ofList declarations).values.map Prod.fst := by
    rw [ofList_values, List.map_flatMap, List.mem_flatMap]
    refine ⟨_, hsource, ?_⟩
    rw [map_fst_valuesOf_enum]
    exact List.mem_map_of_mem hmember
  rw [Option.isSome_iff_ne_none]
  intro hmissing
  apply not_mem_of_lookup hmissing
  rwa [List.map_reverse, List.mem_reverse]

theorem memberName_isRegular (h : ∀ source ∈ declarations, source.isRegular)
    (mem : declaration ∈ (ofList declarations).declarations name)
    (hmember : member ∈ declaration.enumMembers) : member.memberName.isRegular := by
  obtain ⟨location, enumName, members, hsource, hmember⟩ :=
    exists_enum_of_mem_declarations h mem hmember
  have hregular := List.all_eq_true.mp (h _ hsource) member hmember
  rw [EnumMember.isRegular, Bool.and_eq_true] at hregular
  exact hregular.2

end DeclarationTable

/-- Regular nodes lead to regular nodes only. -/
theorem Node.IsRegular.below (h : ∀ source ∈ declarations, source.isRegular) {node node' : Node}
    (step : (Environment.ofTable (.ofList declarations)).Below aliases held node node')
    (hnode : node.IsRegular) : node'.IsRegular := by
  cases step with
  | part mem => exact TypeExpr.isRegular_part hnode mem
  | @definition _ name _ first others found followed _ =>
      have hmem : first ∈ (DeclarationTable.ofList declarations).declarations name := by
        rw [show (DeclarationTable.ofList declarations).declarations name = _ from found]
        exact List.mem_cons_self
      obtain hsource | ⟨member, rfl⟩ :=
        DeclarationTable.mem_or_enumMember_of_mem_declarations hmem
      · exact h first hsource
      · simp [Declaration.isFollowed] at followed
  | body mem => exact Declaration.isRegular_part hnode mem

theorem Node.IsRegular.reaches (h : ∀ source ∈ declarations, source.isRegular) {node node' : Node}
    (reaches : (Environment.ofTable (.ofList declarations)).Reaches aliases held node node')
    (hnode : node.IsRegular) : node'.IsRegular := by
  induction reaches with
  | refl => exact hnode
  | tail _ step ih => exact ih.below h step

end Regular

/-! ### Foreseen failures -/

/-- A failure that a document can give a reason for. Names are never of a foreign kind, types
without a schema are types that the format has no structure for, literals are no expressions, and a
bigint literal has an integer for its value or is no numeral. -/
structure Failure.IsForeseen (failure : Failure) : Prop where
  name : failure.cause ≠ .invalidName
  type : failure.cause = .unsupportedNode →
    ∃ location kind, failure.node = some (.type (.unsupported location kind))
  literal : failure.problem ≠ .unsupportedLiteral .expression
  bigInt : ∀ text, failure.problem ≠ .notBigInt text
  declaration : ∀ name description, failure.problem ≠ .unsupportedDeclaration name description
  unread : failure.cause = .unsupportedLiteralType → ∃ literal : Literal,
    failure.node = some (.literal literal) ∧
      (literal.kind = .numeric ∨ literal.kind = .bigInt) ∧ literal.evaluate? = none

/-- Most causes have nothing to do with branches that are never taken. -/
theorem Failure.isForeseen_of_cause {failure : Failure}
    (h : failure.cause ∉ [.invalidName, .unsupportedNode, .unsupportedLiteral,
      .unsupportedDeclaration, .unsupportedLiteralType]) : failure.IsForeseen := by
  have hcause : ∀ cause ∈ [Cause.invalidName, .unsupportedNode, .unsupportedLiteral,
      .unsupportedDeclaration, .unsupportedLiteralType], failure.cause ≠ cause :=
    fun cause hmem hcause => h (hcause ▸ hmem)
  constructor
  · exact hcause _ (by simp)
  · exact fun htype => absurd htype (hcause _ (by simp))
  · exact fun hproblem =>
      hcause .unsupportedLiteral (by simp) (by simp [cause, hproblem, Problem.cause])
  · exact fun _ hproblem =>
      hcause .unsupportedLiteralType (by simp) (by simp [cause, hproblem, Problem.cause])
  · exact fun _ _ hproblem =>
      hcause .unsupportedDeclaration (by simp) (by simp [cause, hproblem, Problem.cause])
  · exact fun hunread => absurd hunread (hcause _ (by simp))

section Refusals

variable {declarations : List Declaration} {aliases : Bool} {name : PropertyName}
  {member : Member} {members : List Member} {enumMember : EnumMember} {expression : Literal}
  {node : Node} {failure : Failure} {fault : Fault}

theorem PropertyName.isForeseen (h : name.isRegular) (nameless : name.plain = .error failure) :
    failure.IsForeseen := by
  unfold plain at nameless
  cases hkind : name.kind with
  | computed | privateName =>
      simp only [hkind, Except.error.injEq] at nameless
      subst nameless
      exact Failure.isForeseen_of_cause (by simp [Failure.cause, Problem.cause])
  | foreign word => simp [isRegular, hkind] at h
  | _ => simp [hkind] at nameless

theorem Member.Refused.isForeseen (hregular : member.isRegular) (h : member.Refused failure) :
    failure.IsForeseen := by
  cases h with
  | name nameless =>
      rw [Member.isRegular, Bool.and_eq_true] at hregular
      exact PropertyName.isForeseen hregular.1 nameless
  | _ => exact Failure.isForeseen_of_cause (by simp [Failure.cause, Problem.cause])

theorem Member.RefusedAmong.isForeseen (hregular : ∀ member ∈ members, member.isRegular)
    (h : Member.RefusedAmong members failure) : failure.IsForeseen := by
  cases h with
  | member mem refused => exact refused.isForeseen (hregular _ mem)
  | duplicate _ _ _ => exact Failure.isForeseen_of_cause (by simp [Failure.cause, Problem.cause])

theorem EnumMember.Refused.isForeseen {env : Environment}
    (hregular : enumMember.memberName.isRegular) (h : enumMember.Refused env failure) :
    failure.IsForeseen := by
  cases h with
  | name nameless => exact PropertyName.isForeseen hregular nameless
  | value _ => exact Failure.isForeseen_of_cause (by simp [Failure.cause, Problem.cause])

/-- Only numbers and bigints can be without a value, and what has a value is of the right type. -/
theorem Literal.Refused.isForeseen {table : DeclarationTable}
    (hregular : expression.kind ≠ .expression)
    (h : expression.Refused (.ofTable table) node (.failure failure)) : failure.IsForeseen := by
  cases h with
  | unread kind unread =>
      obtain ⟨hnone, rfl⟩ := Environment.evaluate_eq_error_iff.mp unread
      have hkind : expression.kind ≠ .string := fun hkind => by simp [evaluate?, hkind] at hnone
      have hread : ∃ literal : Literal, some (Node.literal expression) = some (.literal literal) ∧
          (literal.kind = .numeric ∨ literal.kind = .bigInt) ∧ literal.evaluate? = none :=
        ⟨expression, rfl, by simpa [hkind] using kind, hnone⟩
      refine ⟨?_, ?_, ?_, ?_, ?_, fun _ => hread⟩ <;> simp [Failure.cause, Problem.cause]
  | notLiteral kind read valueless =>
      have hsome := Environment.evaluate_eq_ok_iff.mp read
      obtain hkind | hkind : expression.kind = .string ∨ expression.kind = .numeric := by
        simpa using kind
      · simp only [evaluate?, hkind, Option.some.injEq] at hsome
        subst hsome
        cases valueless
      · simp only [evaluate?, hkind, Option.map_eq_some_iff] at hsome
        obtain ⟨n, -, rfl⟩ := hsome
        cases valueless
  | notBigInt kind read flagless =>
      have hsome := Environment.evaluate_eq_ok_iff.mp read
      simp only [evaluate?, kind, Option.map_eq_some_iff] at hsome
      obtain ⟨n, -, rfl⟩ := hsome
      exact absurd (List.mem_singleton_self _) flagless
  | unsupported _ =>
      have hexpression :
          Problem.unsupportedLiteral expression.kind ≠ .unsupportedLiteral .expression :=
        fun hproblem => hregular (Problem.unsupportedLiteral.inj hproblem)
      refine ⟨?_, ?_, hexpression, ?_, ?_, ?_⟩ <;> simp [Failure.cause, Problem.cause]

/-- **What is refused in a document is foreseen.** -/
theorem Node.Refused.isForeseen (hdeclarations : ∀ source ∈ declarations, source.isRegular)
    (hnode : node.IsRegular)
    (h : node.Refused (.ofTable (.ofList declarations)) aliases (.failure failure)) :
    failure.IsForeseen := by
  cases h with
  | keyword _ | unresolved _ =>
      exact Failure.isForeseen_of_cause (by simp [Failure.cause, Problem.cause])
  | literal refused =>
      exact refused.isForeseen (by simpa [IsRegular, TypeExpr.isRegular] using hnode)
  | object refused => exact refused.isForeseen (Member.areRegular_iff.mp hnode)
  | unfollowed _ _ _ => constructor <;> simp [Failure.cause, Problem.cause]
  | @enumMember _ target _ member others _ found refused =>
      have hfound : (DeclarationTable.ofList declarations).declarations target =
          .enumMember member :: others := found
      have hmem : .enumMember member ∈ (DeclarationTable.ofList declarations).declarations target :=
        hfound ▸ List.mem_cons_self
      exact refused.isForeseen (DeclarationTable.memberName_isRegular hdeclarations hmem
        (List.mem_singleton_self member))
  | @unsupported location kind =>
      refine ⟨?_, fun _ => ⟨location, kind, rfl⟩, ?_, ?_, ?_, ?_⟩ <;>
        simp [Failure.cause, Problem.cause]
  | foreign => cases hnode
  | enum mem refused =>
      have hmember := List.all_eq_true.mp hnode _ mem
      rw [EnumMember.isRegular, Bool.and_eq_true] at hmember
      exact refused.isForeseen hmember.2
  | interface refused =>
      simp only [IsRegular, Declaration.isRegular, Bool.and_eq_true, List.all_eq_true] at hnode
      exact refused.isForeseen hnode.1

end Refusals

/-! ### Enum members without a value -/

/-- The environment of a table in which enum members without a value there have the given types and
record the given events. -/
def Environment.withUnregistered (table : DeclarationTable) (types : EnumMember → Evaluated)
    (events : EnumMember → List Event) : Environment :=
  { ofTable table with
    evaluateMember := fun member => (table.value? member.qualifiedName).getD (types member)
    memberEvents := fun member =>
      if (table.value? member.qualifiedName).isSome then [] else events member }

section Unregistered

variable {declarations : List Declaration} {aliases : Bool} {node : Node}
  {types : EnumMember → Evaluated} {events : EnumMember → List Event}

theorem Environment.agrees_withUnregistered
    (h : ∀ source ∈ declarations, source.isRegular) :
    (Environment.ofTable (.ofList declarations)).Agrees
      (.withUnregistered (.ofList declarations) types events) aliases node where
  literals := rfl
  names := by
    intro name _
    refine ⟨rfl, ?_, ?_⟩
    · intro declaration mem member hmember
      obtain ⟨evaluated, hvalue⟩ :=
        Option.isSome_iff_exists.mp (DeclarationTable.value?_isSome h mem hmember)
      simp [withUnregistered, ofTable, DeclarationTable.evaluateMember, hvalue]
    · intro declaration mem member hmember
      have hvalue := DeclarationTable.value?_isSome h mem hmember
      simp [withUnregistered, ofTable, DeclarationTable.memberEvents, hvalue]

end Unregistered

/-! ### What the resolution of a signature fails with -/

/-- Whatever came before, an action that fails does so with one of the faults. -/
def Recorded.FailsWith {α : Type} (faults : Fault → Prop) (action : Recorded α) : Prop :=
  ∀ earlier fault later, action earlier = .error fault later → faults fault

namespace Recorded.FailsWith

variable {α β : Type} {faults : Fault → Prop} {action : Recorded α} {next : α → Recorded β}

theorem pure (a : α) : FailsWith faults (pure a : Recorded α) := by
  rintro _ _ _ ⟨⟩

theorem throw {fault : Fault} (h : faults fault) :
    FailsWith faults (throw fault : Recorded α) := by
  rintro earlier _ later ⟨⟩
  exact h

theorem bind (h : FailsWith faults action) (hnext : ∀ a, FailsWith faults (next a)) :
    FailsWith faults (action >>= next) := by
  intro earlier fault later hrun
  simp only [Bind.bind, EStateM.bind] at hrun
  cases haction : action earlier with
  | ok a middle =>
      rw [haction] at hrun
      exact hnext a middle fault later hrun
  | error reason middle =>
      rw [haction] at hrun
      obtain ⟨rfl, -⟩ := EStateM.Result.error.inj hrun
      exact h earlier reason middle haction

theorem mapM {ι : Type} {run : ι → Recorded α} {xs : List ι}
    (h : ∀ x ∈ xs, FailsWith faults (run x)) : FailsWith faults (xs.mapM run) := by
  induction xs with
  | nil => exact pure []
  | cons x xs ih =>
      rw [List.mapM_cons]
      refine (h x List.mem_cons_self).bind fun y => ?_
      exact (ih fun x hx => h x (List.mem_cons_of_mem _ hx)).bind fun ys => pure _

end Recorded.FailsWith

section Signatures

variable {budget : Nat} {env env' : Environment} {policy : Policy} {faults : Fault → Prop}
  {function : String} {parameter : Parameter} {signature : Signature} {type : TypeExpr}

theorem resolveType_failsWith
    (h : ∀ reason, (resolveWithin budget env policy type).1 = .error reason →
      faults (reason.toFault type)) :
    (resolveType budget env policy type).FailsWith faults := by
  intro earlier fault later hrun
  rw [resolveType] at hrun
  cases hending : (resolveWithin budget env policy type).1 with
  | ok model => simp [hending] at hrun
  | error reason =>
      simp only [hending] at hrun
      obtain ⟨rfl, -⟩ := EStateM.Result.error.inj hrun
      exact h reason hending

/-- A signature fails for want of a type, or because one of its types fails. -/
theorem resolveSignature_failsWith
    (hparameter : ∀ parameter ∈ signature.parameters, faults (.failure
      ⟨.parameterWithoutType parameter.name signature.name, some (.parameter parameter)⟩))
    (hsignature : faults
      (.failure ⟨.signatureWithoutType signature.name, some (.signature signature)⟩))
    (htypes : ∀ type ∈ signature.types, (resolveType budget env policy type).FailsWith faults) :
    (resolveSignature budget env policy signature).FailsWith faults := by
  rw [resolveSignature]
  have hstart : (recordEvent (.signatureStarted signature.name)).FailsWith faults := by
    rintro _ _ _ ⟨⟩
  refine hstart.bind fun _ => ?_
  cases hreturns : signature.returnType with
  | none => exact .throw hsignature
  | some returnType =>
      have hreturnType : returnType ∈ signature.types := by
        simp [Signature.types, hreturns]
      refine .bind (.mapM fun parameter hmem => ?_) fun parameters =>
        (htypes returnType hreturnType).bind fun returns => .pure _
      rw [resolveParameter]
      cases htype : parameter.type with
      | none => exact .throw (hparameter parameter hmem)
      | some type =>
          have hmemType : type ∈ signature.types :=
            List.mem_append_left _ (List.mem_flatMap.mpr ⟨parameter, hmem, by simp [htype]⟩)
          exact (htypes type hmemType).bind fun model => .pure _

theorem resolveSignature_eq
    (h : ∀ type ∈ signature.types,
      resolveWithin budget env' policy type =
        resolveWithin budget env policy type) :
    resolveSignature budget env' policy signature =
      resolveSignature budget env policy signature := by
  have htype : ∀ type ∈ signature.types,
      resolveType budget env' policy type = resolveType budget env policy type := by
    intro type hmem
    funext earlier
    rw [resolveType, resolveType, h type hmem]
  rw [resolveSignature, resolveSignature]
  refine congrArg _ (funext fun _ => ?_)
  cases hreturns : signature.returnType with
  | none => rfl
  | some returnType =>
      have hparameters : ∀ parameter ∈ signature.parameters,
          resolveParameter budget env' policy signature.name parameter =
            resolveParameter budget env policy signature.name parameter := by
        intro parameter hmem
        rw [resolveParameter, resolveParameter]
        cases hparameter : parameter.type with
        | none => rfl
        | some type =>
            have hmemType : type ∈ signature.types :=
              List.mem_append_left _ (List.mem_flatMap.mpr ⟨parameter, hmem, by simp [hparameter]⟩)
            simp only [htype type hmemType]
      have hreturnType : returnType ∈ signature.types := by
        simp [Signature.types, hreturns]
      simp only [Resolve.mapM_eq hparameters, htype returnType hreturnType]

end Signatures

/-- A fault that is a foreseen failure. -/
def Fault.IsForeseen : Fault → Prop
  | .failure reason => reason.IsForeseen
  | .notInteger _ => False

theorem Fault.isForeseen_failure {failure : Failure} :
    (Fault.failure failure).IsForeseen ↔ failure.IsForeseen :=
  Iff.rfl

/-- Whatever a regular type expression fails with has its reason in the document. -/
theorem isForeseen_of_error {declarations : List Declaration} {policy : Policy} {type : TypeExpr}
    {budget : Nat} {fault : Fault} (h : ∀ source ∈ declarations, source.isRegular)
    (hregular : type.isRegular)
    (hfault : (resolveWithin budget (.ofTable (.ofList declarations)) policy type).1 =
      .error (.fault fault)) : fault.IsForeseen := by
  rw [resolveWithin] at hfault
  cases hrun : Resolve.typeWithin (.ofTable (.ofList declarations)) policy budget type {} with
  | ok root c => simp [hrun] at hfault
  | error reason c =>
      simp only [hrun, Except.error.injEq] at hfault
      subst hfault
      obtain ⟨node, hreaches, hrefused⟩ := faulty_of_error hrun
      obtain ⟨failure, rfl⟩ := hrefused.exists_failure
      have hnode : node.IsRegular := Node.IsRegular.reaches h hreaches hregular
      exact Fault.isForeseen_failure.mpr (hrefused.isForeseen h hnode)

/-- **Documents fail in foreseen ways.** A function of a document that is read, in any mode and with
or without type aliases, fails with a reason that the document gives, if it fails at all, and so
does each of its types at every depth. What would be answered for enum members without a value
changes nothing, not even what is recorded. -/
theorem documents_fail_foreseen {scope : Format.Scope} {depth : Nat} {json : Json}
    {document : Document} {signature : Signature} (limit : Nat) (policy : Policy)
    (h : Format.readDocumentWithin scope depth json = .ok document)
    (hfunction : signature ∈ document.functions) :
    let table : DeclarationTable := .ofList document.declarations
    let env : Environment := .ofTable table
    (resolveSignature limit env policy signature).FailsWith Fault.IsForeseen ∧
      (∀ type ∈ signature.types, ∀ budget fault,
        (resolveWithin budget env policy type).1 = .error (.fault fault) → fault.IsForeseen) ∧
      ∀ types events,
        resolveSignature limit (.withUnregistered table types events) policy signature =
            resolveSignature limit env policy signature ∧
          ∀ type budget, resolveWithin budget (.withUnregistered table types events) policy type =
            resolveWithin budget env policy type := by
  intro table env
  obtain ⟨hdeclarations, hfunctions⟩ :=
    Document.inRange_iff_parts.mp (Format.readDocumentWithin_inRange h)
  have hregular : ∀ source ∈ document.declarations, source.isRegular :=
    fun source hsource => (hdeclarations source hsource).regular
  have htypes : ∀ type ∈ signature.types, type.isRegular := by
    obtain ⟨hparameters, hreturns⟩ :=
      Signature.inRange_iff_parts.mp (hfunctions signature hfunction)
    intro type hmem
    obtain hmem | hmem := List.mem_append.mp hmem
    · obtain ⟨parameter, hparameter, htype⟩ := List.mem_flatMap.mp hmem
      exact (hparameters parameter hparameter type (Option.mem_toList.mp htype)).regular
    · exact (hreturns type (Option.mem_toList.mp hmem)).regular
  have hfails : ∀ type ∈ signature.types, ∀ budget fault,
      (resolveWithin budget env policy type).1 = .error (.fault fault) → fault.IsForeseen :=
    fun type hmem budget fault => isForeseen_of_error hregular (htypes type hmem)
  refine ⟨?_, hfails, fun types events => ?_⟩
  · apply resolveSignature_failsWith
    · intro parameter _
      exact Fault.isForeseen_failure.mpr
        (Failure.isForeseen_of_cause (by simp [Failure.cause, Problem.cause]))
    · exact Fault.isForeseen_failure.mpr
        (Failure.isForeseen_of_cause (by simp [Failure.cause, Problem.cause]))
    · intro type hmem
      apply resolveType_failsWith
      intro reason hreason
      cases reason with
      | fault fault => exact hfails type hmem _ fault hreason
      | depthExceeded =>
          exact Fault.isForeseen_failure.mpr
            (Failure.isForeseen_of_cause (by simp [Failure.cause, Problem.cause]))
  · have hsame : ∀ type budget,
        resolveWithin budget (.withUnregistered table types events) policy type =
          resolveWithin budget env policy type :=
      fun type budget =>
        resolveWithin_eq_of_agrees budget (Environment.agrees_withUnregistered hregular)
    exact ⟨resolveSignature_eq fun type _ => hsame type limit, hsame⟩

/-- A function that returns a member of an enum or a literal that is no numeral. -/
def misspelled : Json :=
  .object
    [("declarations", .array [.object [("kind", .text "EnumDeclaration"), ("name", .text "E"),
      ("members", .array [.object [("name", .text "A")]])]]),
     ("functions", .array [.object [("name", .text "f"), ("returnType",
      .object [("kind", .text "UnionType"), ("types", .array
        [.object [("kind", .text "TypeReference"), ("typeName", .text "E.A")],
         .object [("kind", .text "LiteralType"), ("literal",
          .object [("kind", .text "NumericLiteral"), ("text", .text "1x")])]])])]])]

def misspelledPlace (steps : List Json.Step) : Option Location :=
  some ⟨"e.ts", 0, 0, ⟨"#", steps⟩⟩

def misspelledFailure : Failure :=
  ⟨.invalidLiteral "1x" .numeric, some (.literal ⟨.numeric, "1x", misspelledPlace
    [.field "functions", .index 0, .field "returnType", .field "types", .index 1,
     .field "literal"]⟩)⟩

def misspelledFunction : Signature :=
  let function : List Json.Step := [.field "functions", .index 0]
  let returned : List Json.Step := function ++ [.field "returnType"]
  let first : List Json.Step := returned ++ [.field "types", .index 0]
  let second : List Json.Step := returned ++ [.field "types", .index 1]
  ⟨misspelledPlace function, "f", [], some (.union (misspelledPlace returned)
    [.reference (misspelledPlace first) "E.A" [], .literal (misspelledPlace second)
      ⟨.numeric, "1x", misspelledPlace (second ++ [.field "literal"])⟩])⟩

/-- What is read from it. -/
def misspelledDocument : Document :=
  let enum : List Json.Step := [.field "declarations", .index 0]
  let member : List Json.Step := enum ++ [.field "members", .index 0]
  { declarations := [.enum (misspelledPlace enum) "E" [⟨misspelledPlace member, "A", "E",
      ⟨.identifier, "A", misspelledPlace (member ++ [.field "name"])⟩, none⟩]]
    functions := [misspelledFunction]
    sourceFile := "e.ts" }

/-- The member has the value that the table has recorded, and the literal fails. -/
theorem documents_fail_foreseen_misspelled :
    let table : DeclarationTable := .ofList misspelledDocument.declarations
    let unregistered : Environment :=
      .withUnregistered table (fun _ => ⟨[], .null⟩) fun _ => [.brokenInitializer ""]
    Format.readDocumentWithin ⟨"e.ts", 0⟩ 2 misspelled = .ok misspelledDocument ∧
      resolveSignature 2 (.ofTable table) ⟨.expand, false⟩ misspelledFunction [] =
          .error (.failure misspelledFailure) [.signatureStarted "f"] ∧
        misspelledFailure.IsForeseen ∧
        resolveSignature 2 unregistered ⟨.expand, false⟩ misspelledFunction [] =
          .error (.failure misspelledFailure) [.signatureStarted "f"] := by
  have hread : Format.readDocumentWithin ⟨"e.ts", 0⟩ 2 misspelled = .ok misspelledDocument := by rfl
  have hrun : resolveSignature 2 (.ofTable (.ofList misspelledDocument.declarations))
      ⟨.expand, false⟩ misspelledFunction [] =
        .error (.failure misspelledFailure) [.signatureStarted "f"] := by rfl
  obtain ⟨hfails, -, hsame⟩ :=
    documents_fail_foreseen 2 ⟨.expand, false⟩ hread (List.mem_singleton_self misspelledFunction)
  refine ⟨hread, hrun, Fault.isForeseen_failure.mp (hfails _ _ _ hrun), ?_⟩
  rw [(hsame _ _).1]
  exact hrun

end TypeSchema
