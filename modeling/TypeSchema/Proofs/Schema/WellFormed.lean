import TypeSchema.Proofs.Constant.Values
import TypeSchema.Proofs.Denotation.Place
import TypeSchema.Proofs.Resolution.Closed
import TypeSchema.Schema.Parts

/-!
# Resolution makes well-formed schemas

What a kind of schema asks of its own children is said once, and a schema is well formed when
everything in it keeps to that: objects hold members under distinct names and tuples hold elements
numbered from zero, neither of which occurs anywhere else, and the value of an enum member is a
literal text or a literal number.

A schema that is copied from the table of definitions is as good as the table, so the invariant of
resolution is that all definitions so far are well formed. Each rule keeps it and adds one node to
schemas that have it.
-/

namespace TypeSchema

namespace Schema

/-- Members and elements belong in an object and a tuple; all other schemas stand alone. -/
def standsAlone : Schema → Bool
  | member _ _ _ | tupleElement _ _ => false
  | _ => true

/-- What a schema asks of its literal and of its children. -/
def IsSound : Schema → Prop
  | stringLiteral value => IsValue (stringLiteral value)
  | numberLiteral value => IsValue (numberLiteral value)
  | array inner | tupleElement _ inner | member _ _ inner => inner.standsAlone
  | union parts | intersection parts => ∀ part ∈ parts, part.standsAlone
  | tuple elements =>
    ∃ schemas : List Schema, elements = schemas.mapIdx fun position schema =>
      tupleElement position schema
  | object members =>
    (∀ child ∈ members, ∃ name optional inner, child = member name optional inner) ∧
      (members.map memberName?).Nodup
  | enum _ members => ∀ child ∈ members, ∃ name value, child = enumMember name value
  | enumMember _ value => value.IsValue
  | foreign _ => False
  | any | bigInt | number | string | boolean | null | undefined | booleanLiteral _
  | bigIntLiteral _ | reference _ => True

/-- Whatever a schema contains is sound, the schema included. -/
def SoundThroughout (schema : Schema) : Prop :=
  ∀ part, schema.Contains part → part.IsSound

structure WellFormed (schema : Schema) : Prop where
  alone : schema.standsAlone
  sound : schema.SoundThroughout

variable {schema : Schema} {schemas : List Schema}

theorem soundThroughout_of_children (own : schema.IsSound)
    (inner : ∀ child ∈ schema.children, child.SoundThroughout) : schema.SoundThroughout := by
  intro part hpart
  cases hpart with
  | here => exact own
  | deeper hchild hpart => exact inner _ hchild part hpart

theorem WellFormed.ne_foreign (h : schema.WellFormed) (word : String) :
    ¬ schema.Contains (foreign word) := by
  intro hpart
  exact h.sound (foreign word) hpart

/-! ### One more node -/

theorem wellFormed_of_isLeaf (leaf : schema.isLeaf) (own : schema.IsSound) :
    schema.WellFormed := by
  cases schema <;> first
    | exact ⟨rfl, soundThroughout_of_children own fun _ h => absurd h List.not_mem_nil⟩
    | cases leaf

theorem wellFormed_reference (name : String) : (reference name).WellFormed :=
  ⟨rfl, soundThroughout_of_children trivial fun _ h => absurd h List.not_mem_nil⟩

theorem wellFormed_of_isValue (h : schema.IsValue) : schema.WellFormed := by
  cases h with
  | text s => exact wellFormed_of_isLeaf rfl (.text s)
  | number n => exact wellFormed_of_isLeaf rfl (.number n)

theorem WellFormed.array (h : schema.WellFormed) : (array schema).WellFormed := by
  refine ⟨rfl, soundThroughout_of_children h.alone fun child hchild => ?_⟩
  rw [List.mem_singleton.mp hchild]
  exact h.sound

theorem wellFormed_union (h : ∀ schema ∈ schemas, schema.WellFormed) :
    (union schemas).WellFormed :=
  ⟨rfl, soundThroughout_of_children (fun part hpart => (h part hpart).alone)
    fun child hchild => (h child hchild).sound⟩

theorem wellFormed_intersection (h : ∀ schema ∈ schemas, schema.WellFormed) :
    (intersection schemas).WellFormed :=
  ⟨rfl, soundThroughout_of_children (fun part hpart => (h part hpart).alone)
    fun child hchild => (h child hchild).sound⟩

theorem wellFormed_tuple (h : ∀ schema ∈ schemas, schema.WellFormed) :
    (tuple (schemas.mapIdx fun position schema => tupleElement position schema)).WellFormed := by
  refine ⟨rfl, soundThroughout_of_children ⟨schemas, rfl⟩ fun element helement => ?_⟩
  obtain ⟨position, hposition, rfl⟩ := List.mem_mapIdx.mp helement
  have hinner : schemas[position].WellFormed := h _ (List.getElem_mem hposition)
  refine soundThroughout_of_children hinner.alone fun child hchild => ?_
  rw [List.mem_singleton.mp hchild]
  exact hinner.sound

theorem WellFormed.member (h : schema.WellFormed) (name : String) (optional : Bool) :
    (member name optional schema).SoundThroughout := by
  refine soundThroughout_of_children h.alone fun child hchild => ?_
  rw [List.mem_singleton.mp hchild]
  exact h.sound

theorem IsValue.enumMember (h : schema.IsValue) (name : String) :
    (enumMember name schema).WellFormed := by
  refine ⟨rfl, soundThroughout_of_children h fun child hchild => ?_⟩
  rw [List.mem_singleton.mp hchild]
  exact (wellFormed_of_isValue h).sound

/-- The members of an object so far: sound members under distinct names that were not seen. -/
structure AreMembers (seen : List String) (schemas : List Schema) : Prop where
  members : ∀ child ∈ schemas, ∃ name optional inner, child = member name optional inner
  sound : ∀ child ∈ schemas, child.SoundThroughout
  distinct : (schemas.map memberName?).Nodup
  unseen : ∀ name ∈ seen, some name ∉ schemas.map memberName?

theorem areMembers_nil (seen : List String) : AreMembers seen [] where
  members := fun _ h => absurd h List.not_mem_nil
  sound := fun _ h => absurd h List.not_mem_nil
  distinct := List.nodup_nil
  unseen := fun _ _ => List.not_mem_nil

theorem AreMembers.cons {seen : List String} {name : String} {optional : Bool}
    (h : AreMembers (name :: seen) schemas) (fresh : name ∉ seen) (inner : schema.WellFormed) :
    AreMembers seen (member name optional schema :: schemas) where
  members := List.forall_mem_cons.mpr ⟨⟨name, optional, schema, rfl⟩, h.members⟩
  sound := List.forall_mem_cons.mpr ⟨inner.member name optional, h.sound⟩
  distinct := List.nodup_cons.mpr ⟨h.unseen name List.mem_cons_self, h.distinct⟩
  unseen := by
    intro other hother hmem
    obtain heq | hmem := List.mem_cons.mp hmem
    · obtain rfl : other = name := Option.some.inj heq
      exact fresh hother
    · exact h.unseen other (List.mem_cons_of_mem name hother) hmem

theorem AreMembers.wellFormed (h : AreMembers [] schemas) : (object schemas).WellFormed :=
  ⟨rfl, soundThroughout_of_children ⟨h.members, h.distinct⟩ h.sound⟩

theorem wellFormed_enum {name : String}
    (h : ∀ child ∈ schemas, ∃ text value, child = enumMember text value ∧ value.IsValue) :
    (enum name schemas).WellFormed := by
  refine ⟨rfl, soundThroughout_of_children ?_ ?_⟩
  · intro child hchild
    obtain ⟨text, value, heq, -⟩ := h child hchild
    exact ⟨text, value, heq⟩
  · intro child hchild
    obtain ⟨text, value, rfl, hvalue⟩ := h child hchild
    exact (hvalue.enumMember text).sound

end Schema

/-! ### The rules -/

/-- All definitions so far are well formed. -/
def Context.Formed (c : Context) : Prop := ∀ entry ∈ c.deps, entry.2.WellFormed

/-- A resolution keeps definitions well formed, and its result is well formed. -/
def Forms (c : Context) (schema : Schema) (c' : Context) : Prop :=
  c.Formed → c'.Formed ∧ schema.WellFormed

namespace Resolve

variable {env : Environment} {policy : Policy} {c c' : Context} {name : String} {schema : Schema}
  {schemas : List Schema}

theorem sequence_forms {α : Type} {xs : List α} (h : Sequence (fun _ => Forms) xs c schemas c')
    (hc : c.Formed) : c'.Formed ∧ ∀ schema ∈ schemas, schema.WellFormed := by
  induction h with
  | nil => exact ⟨hc, fun _ hmem => absurd hmem List.not_mem_nil⟩
  | cons head _ ih =>
      obtain ⟨hmiddle, hfirst⟩ := head hc
      obtain ⟨hc', hrest⟩ := ih hmiddle
      exact ⟨hc', List.forall_mem_cons.mpr ⟨hfirst, hrest⟩⟩

theorem memberRule_forms {seen : List String} {members : List Member}
    (h : MemberRule (fun _ => Forms) seen members c schemas c') (hc : c.Formed) :
    c'.Formed ∧ Schema.AreMembers seen schemas := by
  induction h with
  | @nil seen _ => exact ⟨hc, Schema.areMembers_nil seen⟩
  | cons _ head fresh _ ih =>
      obtain ⟨hmiddle, hinner⟩ := head hc
      obtain ⟨hc', hrest⟩ := ih hmiddle
      exact ⟨hc', hrest.cons fresh hinner⟩

section Enums

variable (typed : env.WellTyped)

include typed

theorem exists_value_of_memberSchema? {member : EnumMember}
    (h : env.memberSchema? member = some schema) :
    ∃ text value, schema = .enumMember text value ∧ value.IsValue := by
  obtain ⟨text, value, -, hvalue, rfl⟩ := Environment.memberSchema?_eq_some_iff.mp h
  exact ⟨text, value, rfl, typed.member member value hvalue⟩

theorem exists_value_of_mem {members : List EnumMember}
    (h : List.Forall₂ (fun member schema => env.memberSchema? member = some schema) members
      schemas) :
    ∀ child ∈ schemas, ∃ text value, child = .enumMember text value ∧ value.IsValue := by
  induction h with
  | nil => exact fun _ hchild => absurd hchild List.not_mem_nil
  | cons head _ ih => exact List.forall_mem_cons.mpr ⟨exists_value_of_memberSchema? typed head, ih⟩

theorem bodyRule_forms {declaration : Declaration}
    (h : BodyRule env (fun _ => Forms) declaration c schema c') : Forms c schema c' := by
  intro hc
  cases h with
  | enum values => exact ⟨hc, Schema.wellFormed_enum (exists_value_of_mem typed values)⟩
  | interface contents => exact (memberRule_forms contents hc).imp_right (·.wellFormed)
  | typeAlias aliased => exact aliased hc

end Enums

/-- A definition that is finished is as well formed as the table. -/
theorem namedRule_forms {mode : ReferenceMode} {run : Context → Schema → Context → Prop}
    (hrun : ∀ c schema c', run c schema c' → Forms c schema c')
    (h : NamedRule mode name run c schema c') : Forms c schema c' := by
  intro hc
  have hreference : (Schema.reference name).WellFormed := Schema.wellFormed_reference name
  have hoccurrence : ∀ {inner : Schema}, inner.WellFormed →
      (mode.occurrence name inner).WellFormed := by
    intro inner hinner
    cases mode with
    | expand => exact hinner
    | share => exact hreference
  cases h with
  | finished found => exact ⟨hc, hoccurrence (hc _ (mem_of_lookup found))⟩
  | reentered _ _ => exact ⟨hc, hreference⟩
  | recorded _ _ resolved _ =>
      obtain ⟨hafter, hinner⟩ := hrun _ _ _ resolved hc
      refine ⟨?_, hoccurrence hinner⟩
      intro entry hentry
      obtain hentry | hentry := List.mem_append.mp hentry
      · exact hafter entry hentry
      · rw [List.mem_singleton.mp hentry]
        exact hinner
  | inlined _ _ resolved _ =>
      obtain ⟨hafter, hinner⟩ := hrun _ _ _ resolved hc
      exact ⟨hafter, hinner⟩

theorem referenceRule_forms (typed : env.WellTyped) {arguments : List TypeExpr}
    (h : ReferenceRule env policy (BodyRule env fun _ => Forms) name arguments c schema c') :
    Forms c schema c' := by
  intro hc
  cases h with
  | member found value ends =>
      obtain ⟨text, value, rfl, hvalue⟩ := exists_value_of_memberSchema? typed value
      rw [ends]
      exact ⟨hc, hvalue.enumMember text⟩
  | definition found followed named =>
      exact namedRule_forms (fun _ _ _ => bodyRule_forms typed) named hc

theorem wellFormed_of_literalSchema? (typed : env.WellTyped) {literal : Literal}
    (h : env.literalSchema? literal = some schema) : schema.WellFormed := by
  have hvalue : ((env.evaluateLiteral literal).toOption.bind fun evaluated =>
      evaluated.literalSchema?) = some schema → schema.WellFormed := by
    intro hschema
    cases hliteral : env.evaluateLiteral literal with
    | error failure => simp [hliteral, Except.toOption] at hschema
    | ok evaluated =>
        rw [hliteral] at hschema
        exact Schema.wellFormed_of_isValue (typed.literal hliteral schema hschema)
  unfold Environment.literalSchema? at h
  cases hkind : literal.kind with
  | null | trueLiteral | falseLiteral =>
      simp only [hkind, Option.some.injEq] at h
      rw [← h]
      exact Schema.wellFormed_of_isLeaf rfl trivial
  | string | numeric =>
      simp only [hkind] at h
      exact hvalue h
  | bigInt =>
      simp only [hkind] at h
      obtain ⟨evaluated, -, hschema⟩ := Option.bind_eq_some_iff.mp h
      split at hschema
      · obtain ⟨n, -, rfl⟩ := Option.map_eq_some_iff.mp hschema
        exact Schema.wellFormed_of_isLeaf rfl trivial
      · cases hschema
  | _ => simp [hkind] at h

/-- **The invariant of resolution.** Every successful resolution keeps definitions well formed, and
its result is well formed. -/
theorem typeWithin_forms (typed : env.WellTyped) {budget : Nat} {type : TypeExpr}
    (h : typeWithin env policy budget type c = .ok schema c') : Forms c schema c' := by
  refine rule_induction (P := fun _ => Forms) ?_ h
  intro type c schema c' hrule hc
  cases hrule with
  | @keyword _ word _ _ meaning =>
      refine ⟨hc, Schema.wellFormed_of_isLeaf (Keyword.isLeaf_of_schema? meaning) ?_⟩
      cases word <;> cases meaning <;> exact trivial
  | literal meaning => exact ⟨hc, wellFormed_of_literalSchema? typed meaning⟩
  | array inner => exact (inner hc).imp_right (·.array)
  | union inner => exact (sequence_forms inner hc).imp_right Schema.wellFormed_union
  | intersection inner =>
      exact (sequence_forms inner hc).imp_right Schema.wellFormed_intersection
  | parenthesized inner => exact inner hc
  | tuple inner => exact (sequence_forms inner hc).imp_right Schema.wellFormed_tuple
  | object inner => exact (memberRule_forms inner hc).imp_right (·.wellFormed)
  | reference inner => exact referenceRule_forms typed inner hc

end Resolve

end TypeSchema
