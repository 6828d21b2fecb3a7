import TypeSchema.Proofs.Constant.Values
import TypeSchema.Proofs.Number.Finite
import TypeSchema.Proofs.Schema.SourceOrder

/-!
# Schemas hold finite numbers

The numbers in a model are values of literals and of enum members in the source: a part of a model
denotes a place of the source, and a literal number denotes a literal or an enum member with that
value. These are finite, so all numbers in what is written of a model are.
-/

namespace TypeSchema

/-! ### Values -/

namespace Evaluated

/-- The value of a type, if it has one, is a finite number or no number at all. -/
def IsFinite (evaluated : Evaluated) : Prop := evaluated.value.isFinite

theorem isFinite_enumNumber {n : Number} (h : n.isFinite) : (enumNumber n).IsFinite := h

theorem isFinite_enumText (s : String) : (enumText s).IsFinite := rfl

theorem isFinite_computedNumber : computedNumber.IsFinite := rfl

theorem isFinite_of_constantNumber? {literal : Literal} {n : Number}
    (h : literal.constantNumber? = some n) : n.isFinite := by
  unfold Literal.constantNumber? at h
  split at h
  · exact NumericLiteral.isFinite_of_toOption h
  · exact NumericLiteral.isFinite_of_unary? h
  · cases h

theorem isFinite_evaluateConstant (literal : Literal) : literal.evaluateConstant.IsFinite := by
  have hnumber : (literal.constantNumber?.elim computedNumber enumNumber).IsFinite := by
    cases hconstant : literal.constantNumber? with
    | none => exact isFinite_computedNumber
    | some n => exact isFinite_enumNumber (isFinite_of_constantNumber? hconstant)
  unfold Literal.evaluateConstant
  split
  · exact isFinite_enumText literal.text
  · exact isFinite_enumText literal.text
  · exact hnumber

theorem isFinite_following {previous : Option Evaluated}
    (h : ∀ evaluated ∈ previous, evaluated.IsFinite) : (following previous).IsFinite := by
  cases previous with
  | none => exact isFinite_enumNumber rfl
  | some evaluated =>
      have hprevious := h evaluated rfl
      unfold following
      dsimp only
      split
      · next n hvalue =>
          rw [IsFinite, hvalue] at hprevious
          split_ifs
          · exact isFinite_enumNumber (Number.isFinite_succ hprevious)
          · exact isFinite_computedNumber
      · exact isFinite_computedNumber

theorem isFinite_ofMember (previous : Option Evaluated) (member : EnumMember)
    (h : ∀ evaluated ∈ previous, evaluated.IsFinite) : (ofMember previous member).IsFinite := by
  unfold ofMember
  cases member.initializer with
  | none => exact isFinite_following h
  | some literal => exact isFinite_evaluateConstant literal

theorem isFinite_ofUnregistered (member : EnumMember) : (ofUnregistered member).IsFinite := by
  unfold ofUnregistered
  cases member.initializer with
  | none => exact rfl
  | some literal => exact isFinite_evaluateConstant literal

theorem isFinite_of_evaluate? {literal : Literal} {evaluated : Evaluated}
    (h : literal.evaluate? = some evaluated) : evaluated.IsFinite := by
  unfold Literal.evaluate? at h
  split at h
  · cases h
    rfl
  · obtain ⟨n, hn, rfl⟩ := Option.map_eq_some_iff.mp h
    exact NumericLiteral.isFinite_of_toOption hn
  · obtain ⟨n, -, rfl⟩ := Option.map_eq_some_iff.mp h
    rfl
  all_goals
    cases h
    rfl

theorem literalSchema?_eq_numberLiteral {evaluated : Evaluated} {value : Json}
    (h : evaluated.literalSchema? = some (.numberLiteral value)) : evaluated.value = value := by
  unfold literalSchema? at h
  split_ifs at h
  · cases h
  · cases h
    rfl

end Evaluated

/-- Literals and enum members evaluate to types without infinite values. -/
structure Environment.Finite (env : Environment) : Prop where
  literal : ∀ {literal evaluated}, env.evaluateLiteral literal = .ok evaluated → evaluated.IsFinite
  member : ∀ member, (env.evaluateMember member).IsFinite

theorem Environment.finite_ofTable (declarations : List Declaration) :
    (ofTable (.ofList declarations)).Finite where
  literal := fun h => Evaluated.isFinite_of_evaluate? (evaluate_eq_ok_iff.mp h)
  member := forall_evaluateMember Evaluated.isFinite_ofMember Evaluated.isFinite_ofUnregistered
    declarations

/-! ### Models -/

section Places

variable {env : Environment} {aliases : Bool} {place target : Place}

/-- A value in the source is that of an enum member. -/
def Place.IsMemberValue (env : Environment) : Place → Prop
  | .value evaluated => ∃ member, evaluated = env.evaluateMember member
  | _ => True

theorem isMemberValue_of_place? {name : String} (h : env.place? aliases name = some target) :
    target.IsMemberValue env := by
  obtain ⟨first, -, hfirst⟩ := Option.bind_eq_some_iff.mp h
  cases first with
  | typeAlias location name type =>
      simp only [Declaration.place?, Option.ite_none_right_eq_some] at hfirst
      obtain ⟨-, ⟨⟩⟩ := hfirst
      trivial
  | other location name kind => cases hfirst
  | foreign location name word => cases hfirst
  | _ =>
      cases hfirst
      trivial

theorem isMemberValue_of_next (h : (env.graph aliases).next place = some target) :
    target.IsMemberValue env := by
  simp only [Environment.graph] at h
  split at h
  · cases h
    trivial
  · exact isMemberValue_of_place? h
  · cases h

theorem isMemberValue_of_child {selector : Selector}
    (h : (env.graph aliases).child place selector = some target) : target.IsMemberValue env := by
  simp only [Environment.graph] at h
  split at h
  · cases h
    trivial
  · obtain ⟨type, -, rfl⟩ := Option.map_eq_some_iff.mp h
    trivial
  · obtain ⟨type, -, rfl⟩ := Option.map_eq_some_iff.mp h
    trivial
  · obtain ⟨type, -, rfl⟩ := Option.map_eq_some_iff.mp h
    trivial
  · obtain ⟨member, -, hmember⟩ := List.exists_of_findSome?_eq_some h
    unfold Member.place? at hmember
    split at hmember
    · obtain ⟨-, ⟨⟩⟩ := Option.ite_none_right_eq_some.mp hmember
      trivial
    · cases hmember
  · obtain ⟨member, -, rfl⟩ := Option.map_eq_some_iff.mp h
    trivial
  · cases h
    trivial
  · cases h
    trivial
  · cases h
    exact ⟨_, rfl⟩
  · cases h

theorem isMemberValue_of_leads {path : List Selector}
    (h : (env.graph aliases).Leads place path target) (hplace : place.IsMemberValue env) :
    target.IsMemberValue env := by
  induction h with
  | stop => exact hplace
  | next head _ ih => exact ih (isMemberValue_of_next head)
  | child head _ ih => exact ih (isMemberValue_of_child head)

theorem eq_numberLiteral_of_label? {schema : Schema} {value : Json}
    (h : schema.label? = some (.numberLiteral value)) : schema = .numberLiteral value := by
  cases schema with
  | numberLiteral other =>
      cases h
      rfl
  | _ => cases h

theorem isFinite_of_literalSchema? (finite : env.Finite) {literal : Literal} {value : Json}
    (h : env.literalSchema? literal = some (.numberLiteral value)) : value.isFinite := by
  have hvalue (h : ((env.evaluateLiteral literal).toOption.bind fun evaluated =>
      evaluated.literalSchema?) = some (.numberLiteral value)) : value.isFinite := by
    cases hliteral : env.evaluateLiteral literal with
    | error failure => simp [hliteral, Except.toOption] at h
    | ok evaluated =>
        rw [hliteral] at h
        exact Evaluated.literalSchema?_eq_numberLiteral h ▸ finite.literal hliteral
  unfold Environment.literalSchema? at h
  split at h
  · cases h
  · cases h
  · cases h
  · exact hvalue h
  · exact hvalue h
  · obtain ⟨evaluated, -, hschema⟩ := Option.bind_eq_some_iff.mp h
    split at hschema
    · obtain ⟨n, -, ⟨⟩⟩ := Option.map_eq_some_iff.mp hschema
    · cases hschema
  · cases h

/-- Only literals and values of enum members are labelled as numbers. -/
theorem isFinite_of_label (finite : env.Finite) {value : Json}
    (hplace : place.IsMemberValue env)
    (h : (env.graph aliases).label place = some (.numberLiteral value)) : value.isFinite := by
  cases place with
  | type type =>
      cases type with
      | keyword location word =>
          obtain ⟨schema, hschema, hlabel⟩ := Option.bind_eq_some_iff.mp h
          rw [eq_numberLiteral_of_label? hlabel] at hschema
          cases word <;> cases hschema
      | literal location literal =>
          obtain ⟨schema, hschema, hlabel⟩ := Option.bind_eq_some_iff.mp h
          rw [eq_numberLiteral_of_label? hlabel] at hschema
          exact isFinite_of_literalSchema? finite hschema
      | _ => simp [Environment.graph, Environment.typeLabel?] at h
  | value evaluated =>
      obtain ⟨schema, hschema, hlabel⟩ := Option.bind_eq_some_iff.mp h
      obtain ⟨member, rfl⟩ := hplace
      rw [eq_numberLiteral_of_label? hlabel] at hschema
      exact Evaluated.literalSchema?_eq_numberLiteral hschema ▸ finite.member member
  | enumMember member =>
      obtain ⟨name, -, ⟨⟩⟩ := Option.map_eq_some_iff.mp h
  | _ => cases h

/-- A number in a schema is the value of a literal or of an enum member in the source. -/
theorem Denotes.isFinite (finite : env.Finite) {schema : Schema} (sound : schema.SoundThroughout)
    (h : Denotes env aliases schema place) (hplace : place.IsMemberValue env) {value : Json}
    (hpart : schema.Contains (.numberLiteral value)) : value.isFinite := by
  obtain ⟨path, target, -, hleads, hdenotes⟩ := h.of_contains sound hpart
  cases hdenotes with
  | node leads here there _ _ =>
      obtain rfl := Option.some.inj here
      exact isFinite_of_label finite (isMemberValue_of_leads leads
        (isMemberValue_of_leads hleads hplace)) there

end Places

namespace Schema

/-- The literal of a schema, if it has one, holds no infinite number. -/
def HasFinite : Schema → Prop
  | stringLiteral value | numberLiteral value => value.isFinite
  | _ => True

/-- No infinite number stands anywhere in a schema. -/
def IsFinite (schema : Schema) : Prop := ∀ part, schema.Contains part → part.HasFinite

theorem isFinite_of_numbers {schema : Schema} (sound : schema.SoundThroughout)
    (h : ∀ value, schema.Contains (.numberLiteral value) → value.isFinite) : schema.IsFinite := by
  intro part hpart
  cases part with
  | numberLiteral value => exact h value hpart
  | stringLiteral value =>
      cases sound _ hpart
      rfl
  | _ => trivial

end Schema

theorem resolveWithin_finite {declarations : List Declaration} {budget : Nat} {policy : Policy}
    {type : TypeExpr} {model : Model}
    (h : (resolveWithin budget (.ofTable (.ofList declarations)) policy type).1 = .ok model) :
    ∀ schema ∈ model.schemas, schema.IsFinite := by
  have hfinite := Environment.finite_ofTable declarations
  have hformed := resolveWithin_formed (Environment.wellTyped_ofTable declarations) h
  obtain ⟨hfaithful, hroot⟩ := resolveWithin_faithful (Environment.wellNamed_ofTable declarations) h
  refine List.forall_mem_cons.mpr ⟨?_, List.forall_mem_map.mpr fun entry hentry => ?_⟩
  · have hsound := (hformed model.root List.mem_cons_self).sound
    exact Schema.isFinite_of_numbers hsound fun _ => hroot.isFinite hfinite hsound trivial
  · have hsound := (hformed entry.2 (List.mem_cons_of_mem _ (List.mem_map_of_mem hentry))).sound
    obtain ⟨place, hplace, hdenotes⟩ := hfaithful entry.1 entry.2 hentry
    exact Schema.isFinite_of_numbers hsound fun _ =>
      hdenotes.isFinite hfinite hsound (isMemberValue_of_place? hplace)

/-! ### What is written -/

namespace Json

theorem isFinite_array_iff {items : List Json} :
    (array items).isFinite ↔ ∀ item ∈ items, item.isFinite := by
  rw [isFinite]
  induction items with
  | nil => simp [areFinite]
  | cons item rest ih => rw [areFinite, Bool.and_eq_true, ih, List.forall_mem_cons]

theorem isFinite_object_iff {fields : List (String × Json)} :
    (object fields).isFinite ↔ ∀ field ∈ fields, field.2.isFinite := by
  rw [isFinite]
  induction fields with
  | nil => simp [areFiniteFields]
  | cons field rest ih => rw [areFiniteFields, Bool.and_eq_true, ih, List.forall_mem_cons]

end Json

namespace Schema

theorem isFinite_tagged (kind : String) {fields : List (String × Json)}
    (h : ∀ field ∈ fields, field.2.isFinite) : (tagged kind fields).isFinite :=
  Json.isFinite_object_iff.mpr (List.forall_mem_cons.mpr ⟨rfl, h⟩)

mutual

theorem isFinite_encode (listing : Nat) : ∀ (schema : Schema) {room : Nat} {json : Json},
    schema.IsFinite → schema.encode listing room = .ok json → json.isFinite
  | any | bigInt | number | string | boolean | null | undefined | booleanLiteral _
  | reference _ => by
      intro _ h
      rw [encode] at h
      cases inCalls_eq_ok h
      rfl
  | stringLiteral value | numberLiteral value => by
      intro hfinite h
      rw [encode] at h
      cases inCalls_eq_ok h
      exact isFinite_tagged _ (List.forall_mem_singleton.mpr (hfinite _ (.here _)))
  | foreign _ => by
      intro _ h
      rw [encode] at h
      cases inCalls_eq_ok h
  | bigIntLiteral n => by
      intro _ h
      rw [encode] at h
      obtain ⟨text, -, ⟨⟩⟩ := except_bind_eq_ok_iff.mp (inCalls_eq_ok h)
      rfl
  | array inner | tupleElement _ inner | member _ _ inner | enumMember _ inner => by
      intro hfinite h
      obtain ⟨item, hitem, ⟨⟩⟩ := except_bind_eq_ok_iff.mp (inCalls_eq_ok h)
      have hinner := isFinite_encode listing inner (fun part hpart =>
        hfinite part (.deeper (List.mem_singleton_self inner) hpart)) hitem
      refine isFinite_tagged _ ?_
      simp [hinner, Json.isFinite, Json.ofInt, Number.isFinite]
  | union parts | intersection parts | tuple parts | object parts | enum _ parts => by
      intro hfinite h
      obtain ⟨items, hitems, ⟨⟩⟩ := except_bind_eq_ok_iff.mp (inCalls_eq_ok h)
      have hparts : Json.areFinite items := Json.isFinite_array_iff.mpr
        (isFinite_encodeAll listing parts (fun child hchild part hpart =>
          hfinite part (.deeper hchild hpart)) (inCalls_eq_ok hitems))
      refine isFinite_tagged _ ?_
      simp [hparts, Json.isFinite]

theorem isFinite_encodeAll (listing : Nat) :
    ∀ (schemas : List Schema) {room : Nat} {items : List Json},
      (∀ schema ∈ schemas, schema.IsFinite) → encodeAll listing room schemas = .ok items →
        ∀ item ∈ items, item.isFinite
  | [] => by
      intro _ h
      cases h
      exact fun _ hitem => absurd hitem List.not_mem_nil
  | first :: rest => by
      intro hfinite h
      obtain ⟨hfirst, hrest⟩ := List.forall_mem_cons.mp hfinite
      obtain ⟨item, hitem, h⟩ := except_bind_eq_ok_iff.mp h
      obtain ⟨others, hothers, ⟨⟩⟩ := except_bind_eq_ok_iff.mp h
      exact List.forall_mem_cons.mpr
        ⟨isFinite_encode listing first hfirst hitem, isFinite_encodeAll listing rest hrest hothers⟩

end

end Schema

section Writing

variable {listing room : Nat}

theorem isFinite_encodeDeps {deps : List (String × Schema)} {fields : List (String × Json)}
    (hfinite : ∀ entry ∈ deps, entry.2.IsFinite) (h : encodeDeps listing room deps = .ok fields) :
    ∀ field ∈ fields, field.2.isFinite := by
  induction deps generalizing fields with
  | nil =>
      cases h
      exact fun _ hfield => absurd hfield List.not_mem_nil
  | cons entry rest ih =>
      obtain ⟨hentry, hrest⟩ := List.forall_mem_cons.mp hfinite
      obtain ⟨item, hitem, h⟩ := except_bind_eq_ok_iff.mp h
      obtain ⟨others, hothers, ⟨⟩⟩ := except_bind_eq_ok_iff.mp h
      exact List.forall_mem_cons.mpr
        ⟨Schema.isFinite_encode listing entry.2 hentry hitem, ih hrest hothers⟩

theorem Model.isFinite_encodeFields {model : Model} {fields : List (String × Json)}
    (hfinite : ∀ schema ∈ model.schemas, schema.IsFinite)
    (h : model.encodeFields listing room = .ok fields) :
    ∀ field ∈ fields, field.2.isFinite := by
  obtain ⟨hroot, hdeps⟩ := List.forall_mem_cons.mp hfinite
  obtain ⟨root, hencoded, h⟩ := except_bind_eq_ok_iff.mp (Schema.inCalls_eq_ok h)
  obtain ⟨deps, hentries, ⟨⟩⟩ := except_bind_eq_ok_iff.mp h
  have hobject := Json.isFinite_object_iff.mpr
    (isFinite_encodeDeps (List.forall_mem_map.mp hdeps) (Schema.inCalls_eq_ok hentries))
  exact List.forall_mem_cons.mpr ⟨Schema.isFinite_encode listing model.root hroot hencoded,
    List.forall_mem_singleton.mpr hobject⟩

theorem ParameterSchema.isFinite_encode {parameter : ParameterSchema} {json : Json}
    (hfinite : ∀ schema ∈ parameter.model.schemas, schema.IsFinite)
    (h : parameter.encode listing room = .ok json) : json.isFinite := by
  obtain ⟨fields, hfields, ⟨⟩⟩ := except_bind_eq_ok_iff.mp h
  exact Json.isFinite_object_iff.mpr (List.forall_mem_cons.mpr
    ⟨rfl, List.forall_mem_cons.mpr ⟨rfl, Model.isFinite_encodeFields hfinite hfields⟩⟩)

theorem SignatureSchema.isFinite_encode {signature : SignatureSchema} {json : Json}
    (hfinite : ∀ schema ∈ signature.schemas, schema.IsFinite)
    (h : signature.encode listing room = .ok json) :
    json.isFinite := by
  obtain ⟨hparameters, hreturns⟩ := List.forall_mem_append.mp hfinite
  obtain ⟨parameters, hwritten, h⟩ := except_bind_eq_ok_iff.mp (Schema.inCalls_eq_ok h)
  obtain ⟨returns, hreturned, ⟨⟩⟩ := except_bind_eq_ok_iff.mp h
  have hall : ∀ json ∈ parameters, json.isFinite :=
    forall_of_mapM (fun parameter hmem _ => ParameterSchema.isFinite_encode fun schema hschema =>
      hparameters schema (List.mem_flatMap.mpr ⟨parameter, hmem, hschema⟩))
      (Schema.inCalls_eq_ok hwritten)
  obtain ⟨fields, hfields, rfl⟩ := except_map_eq_ok_iff.mp hreturned
  refine Json.isFinite_object_iff.mpr (List.forall_mem_cons.mpr ⟨rfl, List.forall_mem_cons.mpr
    ⟨Json.isFinite_array_iff.mpr hall, List.forall_mem_singleton.mpr ?_⟩⟩)
  exact Json.isFinite_object_iff.mpr (Model.isFinite_encodeFields hreturns hfields)

end Writing

end TypeSchema
