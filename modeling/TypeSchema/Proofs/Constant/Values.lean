import TypeSchema.Proofs.Resolution.Table

/-!
# Values of literals and of enum members

However a literal or an enum member is evaluated, as one that is written out, one that is numbered
on from the member before it or one that was never registered: if its type is the type of a text
literal its value is a text, and if it is the type of a number literal its value is a number.
-/

namespace TypeSchema

/-- The literal schemas of texts and numbers that hold a text and a number. -/
inductive Schema.IsValue : Schema → Prop
  | text (s : String) : IsValue (.stringLiteral (.text s))
  | number (n : Number) : IsValue (.numberLiteral (.number n))

namespace Evaluated

/-! ### Members of enums -/

section Members

variable {P : Evaluated → Prop}
  (step : ∀ previous member, (∀ evaluated ∈ previous, P evaluated) → P (ofMember previous member))

include step

/-- What a member has as soon as the member before it has it, all members have. -/
theorem forall_mem_ofMembers (members : List EnumMember) {previous : Option Evaluated}
    (h : ∀ evaluated ∈ previous, P evaluated) :
    ∀ entry ∈ ofMembers previous members, P entry.2 := by
  induction members generalizing previous with
  | nil => exact fun _ hentry => absurd hentry List.not_mem_nil
  | cons member rest ih =>
      have hmember := step previous member h
      exact List.forall_mem_cons.mpr ⟨hmember, ih fun evaluated heq => by cases heq; exact hmember⟩

theorem forall_mem_valuesOf (declaration : Declaration) :
    ∀ entry ∈ DeclarationTable.valuesOf declaration, P entry.2 := by
  intro entry hentry
  cases declaration with
  | enum location name members =>
      obtain ⟨value, hvalue, rfl⟩ := List.mem_map.mp hentry
      exact forall_mem_ofMembers step members (fun _ h => by cases h) value hvalue
  | _ => cases hentry

end Members

/-! ### Kinds of values -/

/-- The literal schema of an evaluated type, if it has one, holds a value of its kind. -/
def IsTyped (evaluated : Evaluated) : Prop :=
  ∀ schema, evaluated.literalSchema? = some schema → schema.IsValue

theorem isTyped_enumNumber (n : Number) : (enumNumber n).IsTyped := by
  rintro schema ⟨⟩
  exact .number n

theorem isTyped_enumText (s : String) : (enumText s).IsTyped := by
  rintro schema ⟨⟩
  exact .text s

theorem isTyped_computedNumber : computedNumber.IsTyped := by
  rintro schema ⟨⟩

theorem isTyped_evaluateConstant (literal : Literal) : literal.evaluateConstant.IsTyped := by
  have hnumber : (literal.constantNumber?.elim computedNumber enumNumber).IsTyped := by
    cases literal.constantNumber? with
    | none => exact isTyped_computedNumber
    | some n => exact isTyped_enumNumber n
  unfold Literal.evaluateConstant
  split
  · exact isTyped_enumText literal.text
  · exact isTyped_enumText literal.text
  · exact hnumber

theorem isTyped_following (previous : Option Evaluated) : (following previous).IsTyped := by
  unfold following
  split
  · exact isTyped_enumNumber _
  · split
    · split
      · exact isTyped_enumNumber _
      · exact isTyped_computedNumber
    · exact isTyped_computedNumber

theorem isTyped_ofMember (previous : Option Evaluated) (member : EnumMember) :
    (ofMember previous member).IsTyped := by
  unfold ofMember
  cases member.initializer with
  | none => exact isTyped_following previous
  | some literal => exact isTyped_evaluateConstant literal

theorem isTyped_ofUnregistered (member : EnumMember) : (ofUnregistered member).IsTyped := by
  unfold ofUnregistered
  cases member.initializer with
  | none => rintro schema ⟨⟩
  | some literal => exact isTyped_evaluateConstant literal

theorem isTyped_of_evaluate? {literal : Literal} {evaluated : Evaluated}
    (h : literal.evaluate? = some evaluated) : evaluated.IsTyped := by
  unfold Literal.evaluate? at h
  split at h
  · cases h
    rintro schema ⟨⟩
    exact .text literal.text
  · obtain ⟨n, -, rfl⟩ := Option.map_eq_some_iff.mp h
    rintro schema ⟨⟩
    exact .number n
  · obtain ⟨n, -, rfl⟩ := Option.map_eq_some_iff.mp h
    rintro schema ⟨⟩
  all_goals
    cases h
    rintro schema ⟨⟩

end Evaluated

/-- The value of an operator applied to a literal is the value of the initializer. -/
theorem Literal.evaluateConstant_prefixUnary {text : String} {value : Number}
    (h : NumericLiteral.unary? text = some value) (location : Option Location) :
    (⟨.prefixUnary, text, location⟩ : Literal).evaluateConstant = .enumNumber value := by
  change ((NumericLiteral.unary? text).elim Evaluated.computedNumber Evaluated.enumNumber) = _
  rw [h]
  rfl

namespace Environment

variable {literal : Literal}

theorem evaluate_eq_ok_iff {evaluated : Evaluated} :
    evaluate literal = .ok evaluated ↔ literal.evaluate? = some evaluated := by
  unfold evaluate
  cases literal.evaluate? <;> simp

theorem evaluate_eq_error_iff {failure : Failure} :
    evaluate literal = .error failure ↔ literal.evaluate? = none ∧
      ⟨.invalidLiteral literal.text literal.kind, some (.literal literal)⟩ = failure := by
  unfold evaluate
  cases literal.evaluate? <;> simp

/-- A member has the value that it was registered with, if it was registered at all. -/
theorem forall_evaluateMember {P : Evaluated → Prop}
    (step : ∀ previous member, (∀ evaluated ∈ previous, P evaluated) →
      P (Evaluated.ofMember previous member))
    (unregistered : ∀ member, P (Evaluated.ofUnregistered member))
    (declarations : List Declaration) (member : EnumMember) :
    P ((ofTable (.ofList declarations)).evaluateMember member) := by
  change P ((DeclarationTable.ofList declarations).evaluateMember member)
  unfold DeclarationTable.evaluateMember
  cases hvalue : (DeclarationTable.ofList declarations).value? member.qualifiedName with
  | none => exact unregistered member
  | some evaluated =>
      obtain ⟨before, after, hvalues, -⟩ := List.lookup_eq_some_iff.mp hvalue
      have hmem : (member.qualifiedName, evaluated) ∈
          (DeclarationTable.ofList declarations).values := by
        rw [← List.mem_reverse, hvalues]
        exact List.mem_append_right before List.mem_cons_self
      rw [DeclarationTable.ofList_values, List.mem_flatMap] at hmem
      obtain ⟨declaration, -, hentry⟩ := hmem
      exact Evaluated.forall_mem_valuesOf step declaration _ hentry

end Environment

/-- Literals and enum members evaluate to types whose values are of their kind. -/
structure Environment.WellTyped (env : Environment) : Prop where
  literal : ∀ {literal evaluated}, env.evaluateLiteral literal = .ok evaluated → evaluated.IsTyped
  member : ∀ member, (env.evaluateMember member).IsTyped

theorem Environment.wellTyped_ofTable (declarations : List Declaration) :
    (ofTable (.ofList declarations)).WellTyped where
  literal := fun h => Evaluated.isTyped_of_evaluate? (evaluate_eq_ok_iff.mp h)
  member := forall_evaluateMember
    (fun previous member _ => Evaluated.isTyped_ofMember previous member)
    Evaluated.isTyped_ofUnregistered declarations

end TypeSchema
