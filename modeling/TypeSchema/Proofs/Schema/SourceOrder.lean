import TypeSchema.Proofs.Denotation.Modes
import TypeSchema.Proofs.Schema.Obstacles
import TypeSchema.Proofs.Schema.WellFormed

/-!
# Models keep to the source and can be written

Every object in a model has the members of the object type in the source that stands at the same
place, in the same order. The place is found by the steps that lead to the object in the schema: a
sound schema reaches each of its children by a step of its own, and the source, which the schema
denotes, can be followed along the same steps.

A well-formed model holds no foreign schema, so where there is room for the calls nothing but a
bigint literal of too many digits keeps it from being written. Such literals can be spelt in base
sixteen, where no limit applies to their digits, and then they resolve all the same.
-/

namespace TypeSchema

namespace Schema

/-- What a list of steps leads to inside a schema. -/
def descend? (schema : Schema) : List Selector → Option Schema
  | [] => some schema
  | selector :: rest => (schema.child? selector).bind (descend? · rest)

theorem memberName?_of_isMember {schema : Schema} {name : String} (h : isMember name schema) :
    schema.memberName? = some name := by
  cases schema <;> simp_all [isMember, memberName?]

theorem find?_isMember {members : List Schema} {name : String} {optional : Bool} {inner : Schema}
    (distinct : (members.map memberName?).Nodup) (hmember : .member name optional inner ∈ members) :
    members.find? (isMember name) = some (.member name optional inner) := by
  induction members with
  | nil => cases hmember
  | cons first rest ih =>
      obtain ⟨hfirst, hrest⟩ := List.nodup_cons.mp distinct
      obtain rfl | hmember := List.mem_cons.mp hmember
      · simp [isMember]
      · have hother : isMember name first = false := by
          by_contra h
          rw [Bool.not_eq_false] at h
          have hname : some name ∈ rest.map memberName? := List.mem_map.mpr ⟨_, hmember, rfl⟩
          rw [memberName?_of_isMember h] at hfirst
          exact hfirst hname
        rw [List.find?_cons_of_neg (by simp [hother])]
        exact ih hrest hmember

theorem exists_selector {schema child : Schema} (sound : schema.IsSound)
    (hchild : child ∈ schema.children) : ∃ selector, schema.child? selector = some child := by
  cases schema with
  | array inner =>
      obtain rfl := List.mem_singleton.mp hchild
      exact ⟨.element, rfl⟩
  | tupleElement _ inner | member _ _ inner | enumMember _ inner =>
      obtain rfl := List.mem_singleton.mp hchild
      exact ⟨.content, rfl⟩
  | union parts | intersection parts =>
      obtain ⟨index, hindex⟩ := List.getElem?_of_mem hchild
      exact ⟨.part index, hindex⟩
  | tuple elements =>
      obtain ⟨index, hindex⟩ := List.getElem?_of_mem hchild
      exact ⟨.position index, hindex⟩
  | enum _ members =>
      obtain ⟨index, hindex⟩ := List.getElem?_of_mem hchild
      exact ⟨.enumMember index, hindex⟩
  | object members =>
      obtain ⟨hall, hdistinct⟩ := sound
      obtain ⟨name, optional, inner, rfl⟩ := hall child hchild
      exact ⟨.member name, find?_isMember hdistinct hchild⟩
  | _ => cases hchild

end Schema

section Order

variable {env : Environment} {aliases : Bool} {schema part : Schema} {place : Place}

/-- A part of a sound schema denotes what the source has at the same place. -/
theorem Denotes.of_contains (sound : schema.SoundThroughout) (h : Denotes env aliases schema place)
    (hpart : schema.Contains part) :
    ∃ path target, schema.descend? path = some part ∧
      (env.graph aliases).Leads place path target ∧ Denotes env aliases part target := by
  induction hpart generalizing place with
  | here schema => exact ⟨[], place, rfl, .stop, h⟩
  | @deeper schema child part hchild _ ih =>
      obtain ⟨selector, hselector⟩ := Schema.exists_selector (sound schema (.here schema)) hchild
      have hsound : child.SoundThroughout := fun other hother => sound other (.deeper hchild hother)
      cases h with
      | reference _ _ => cases hchild
      | @node _ _ place' _ leads here there same children =>
          -- Schema and source have the same steps, so the one to the child leads on in both.
          have hsome : ((env.graph aliases).child place' selector).isSome := by
            rw [← same selector, hselector]
            rfl
          obtain ⟨child', hchild'⟩ := Option.isSome_iff_exists.mp hsome
          obtain ⟨path, target, hpath, htarget, hdenotes⟩ :=
            ih hsound (children selector child child' hselector hchild')
          refine ⟨selector :: path, target, ?_, leads.append (.child hchild' htarget), hdenotes⟩
          rw [Schema.descend?, hselector]
          exact hpath

/-- Only object types are labelled as objects. -/
theorem exists_object_of_label {names : List (Option String)}
    (h : (env.graph aliases).label place = some (.object names)) :
    ∃ location body, place = .type (.object location body) ∧ names = body.map Member.name? := by
  have hleaf : ∀ {schema : Schema}, schema.isLeaf → schema.label? ≠ some (.object names) := by
    intro schema leaf
    cases schema <;> simp [Schema.isLeaf, Schema.label?] at leaf ⊢
  cases place with
  | type type =>
      cases type with
      | object location body =>
          obtain ⟨⟩ := h
          exact ⟨location, body, rfl, rfl⟩
      | keyword location word =>
          obtain ⟨schema, hschema, hlabel⟩ := Option.bind_eq_some_iff.mp h
          exact absurd hlabel (hleaf (Keyword.isLeaf_of_schema? hschema))
      | literal location literal =>
          obtain ⟨schema, hschema, hlabel⟩ := Option.bind_eq_some_iff.mp h
          exact absurd hlabel (hleaf (Environment.isLeaf_of_literalSchema? hschema))
      | _ => simp [Environment.graph, Environment.typeLabel?] at h
  | value evaluated =>
      obtain ⟨schema, hschema, hlabel⟩ := Option.bind_eq_some_iff.mp h
      exact absurd hlabel (hleaf (Evaluated.isLeaf_of_literalSchema? hschema))
  | _ => simp [Environment.graph] at h

/-- Every object in a schema has the members of an object type in their order, namely of the one
that the source has at the same place. -/
def InSourceOrder (env : Environment) (aliases : Bool) (schema : Schema) (place : Place) : Prop :=
  ∀ members, schema.Contains (.object members) →
    ∃ path location body, schema.descend? path = some (.object members) ∧
      (env.graph aliases).Leads place path (.type (.object location body)) ∧
      members.map Schema.memberName? = body.map Member.name?

theorem Denotes.inSourceOrder (sound : schema.SoundThroughout)
    (h : Denotes env aliases schema place) : InSourceOrder env aliases schema place := by
  intro members hpart
  obtain ⟨path, target, hpath, htarget, hdenotes⟩ := h.of_contains sound hpart
  cases hdenotes with
  | @node _ _ target' _ leads here there _ _ =>
      obtain rfl := Option.some.inj here
      obtain ⟨location, body, rfl, hnames⟩ := exists_object_of_label there
      refine ⟨path, location, body, hpath, ?_, hnames⟩
      rw [← List.append_nil path]
      exact htarget.append leads

end Order

/-! ### Models -/

namespace Model

/-- A model is made of well-formed schemas whose objects keep the order of the source. Only a bigint
literal of too many digits keeps it from being written where there is room for the calls. -/
structure WellFormed (model : Model) (env : Environment) (aliases : Bool) (type : TypeExpr) :
    Prop where
  formed : ∀ schema ∈ model.schemas, schema.WellFormed
  root_order : InSourceOrder env aliases model.root (.type type)
  deps_order : ∀ entry ∈ model.deps, ∃ place, env.place? aliases entry.1 = some place ∧
    InSourceOrder env aliases entry.2 place
  written_iff : ∀ listing room, (∃ json, model.encode listing room = .ok json) ↔
    (∀ schema ∈ model.schemas, ∀ n, schema.Contains (.bigIntLiteral n) →
      n.natAbs < 10 ^ Number.digitLimit) ∧ model.calls listing ≤ room

theorem written_iff_short {model : Model} (formed : ∀ schema ∈ model.schemas, schema.WellFormed)
    (listing room : Nat) :
    (∃ json, model.encode listing room = .ok json) ↔
      (∀ schema ∈ model.schemas, ∀ n, schema.Contains (.bigIntLiteral n) →
        n.natAbs < 10 ^ Number.digitLimit) ∧ model.calls listing ≤ room := by
  rw [(model.encode_stops listing room).exists_ok_iff]
  constructor
  · intro h
    exact ⟨h.short, h.shallow⟩
  · rintro ⟨hshort, hshallow⟩
    exact ⟨fun schema hschema => (formed schema hschema).ne_foreign, hshort, hshallow⟩

end Model

theorem resolveWithin_formed {env : Environment} (typed : env.WellTyped) {budget : Nat}
    {policy : Policy} {type : TypeExpr} {model : Model}
    (h : (resolveWithin budget env policy type).1 = .ok model) :
    ∀ schema ∈ model.schemas, schema.WellFormed := by
  obtain ⟨c, hrun, hdeps⟩ := resolveWithin_eq_ok_iff.mp h
  obtain ⟨hformed, hroot⟩ :=
    Resolve.typeWithin_forms typed hrun fun _ hentry => absurd hentry List.not_mem_nil
  refine List.forall_mem_cons.mpr ⟨hroot, fun schema hschema => ?_⟩
  obtain ⟨entry, hentry, rfl⟩ := List.mem_map.mp hschema
  rw [← hdeps] at hentry
  exact hformed entry hentry

theorem resolveWithin_faithful {env : Environment} (named : env.WellNamed) {budget : Nat}
    {policy : Policy} {type : TypeExpr} {model : Model}
    (h : (resolveWithin budget env policy type).1 = .ok model) :
    Faithful env policy.aliases model.deps ∧
      Denotes env policy.aliases model.root (.type type) := by
  obtain ⟨c, hrun, hdeps⟩ := resolveWithin_eq_ok_iff.mp h
  rw [← hdeps]
  exact Resolve.typeWithin_depicts named hrun fun _ _ hentry => absurd hentry List.not_mem_nil

/-- **Every model is well formed.** Its objects have distinct members in the order of the source,
its tuples count their elements from zero, its enum members hold texts and numbers, members and
elements occur in objects and tuples only, and it is written exactly if none of its bigint literals
has too many digits and there is room for the calls. -/
theorem models_wellFormed {declarations : List Declaration} {budget : Nat} {policy : Policy}
    {type : TypeExpr} {model : Model}
    (h : (resolveWithin budget (.ofTable (.ofList declarations)) policy type).1 = .ok model) :
    model.WellFormed (.ofTable (.ofList declarations)) policy.aliases type := by
  have hformed := resolveWithin_formed (Environment.wellTyped_ofTable declarations) h
  obtain ⟨hfaithful, hroot⟩ := resolveWithin_faithful (Environment.wellNamed_ofTable declarations) h
  refine ⟨hformed, ?_, ?_, Model.written_iff_short hformed⟩
  · exact hroot.inSourceOrder (hformed model.root List.mem_cons_self).sound
  · intro entry hentry
    obtain ⟨place, hplace, hdenotes⟩ := hfaithful entry.1 entry.2 hentry
    have hmem : entry.2 ∈ model.schemas :=
      List.mem_cons_of_mem model.root (List.mem_map_of_mem hentry)
    exact ⟨place, hplace, hdenotes.inSourceOrder (hformed entry.2 hmem).sound⟩

/-- A tree whose nodes carry a pair, of which the second element is an enum. -/
def shadedTree : List Declaration :=
  [.enum none "Shade"
    [⟨none, "Dark", "Shade", ⟨.identifier, "Dark", none⟩, none⟩,
     ⟨none, "Light", "Shade", ⟨.identifier, "Light", none⟩, some ⟨.string, "light", none⟩⟩],
   .interface none "Tree"
    [.property none ⟨.identifier, "left", none⟩ (some (.reference none "Tree" [])) true,
     .property none ⟨.identifier, "label", none⟩
      (some (.tuple none [.keyword none .string, .reference none "Shade" []])) false] []]

theorem models_wellFormed_shadedTree :
    let shade : Schema := .enum "Shade"
      [.enumMember "Dark" (.numberLiteral (.ofInt 0)),
       .enumMember "Light" (.stringLiteral (.text "light"))]
    let tree : Schema := .object
      [.member "left" true (.reference "Tree"),
       .member "label" false (.tuple [.tupleElement 0 .string, .tupleElement 1 shade])]
    let env : Environment := .ofTable (.ofList shadedTree)
    let type : TypeExpr := .array none (.reference none "Tree" [])
    (resolveWithin 8 env ⟨.expand, false⟩ type).1 = .ok ⟨.array tree, [("Tree", tree)]⟩ ∧
      Model.WellFormed ⟨.array tree, [("Tree", tree)]⟩ env false type := by
  intro shade tree env type
  have h : (resolveWithin 8 env ⟨.expand, false⟩ type).1 =
      .ok ⟨.array tree, [("Tree", tree)]⟩ := rfl
  exact ⟨h, models_wellFormed h⟩

/-! ### A literal of too many digits -/

theorem literalSchema?_hexadecimal (table : DeclarationTable) (n : Nat) :
    (Environment.ofTable table).literalSchema? ⟨.bigInt, NumericLiteral.hexadecimal n, none⟩ =
      some (.bigIntLiteral n) := by
  simp [Environment.literalSchema?, Environment.ofTable, Environment.evaluate, Literal.evaluate?,
    NumericLiteral.readBigInt_hexadecimal, Except.toOption, Json.toInteger]

theorem resolveWithin_hexadecimal (budget : Nat) (declarations : List Declaration)
    (policy : Policy) (n : Nat) :
    (resolveWithin (budget + 1) (.ofTable (.ofList declarations)) policy
      (.literal none ⟨.bigInt, NumericLiteral.hexadecimal n, none⟩)).1 =
        .ok ⟨.bigIntLiteral n, []⟩ := by
  rw [resolveWithin_eq_ok_iff]
  refine ⟨{}, ?_, rfl⟩
  rw [Resolve.typeWithin_succ_eq_ok_iff]
  exact .literal (literalSchema?_hexadecimal _ n)

/-- The least integer of too many digits, in base sixteen, resolves to a model that is not written,
however much room there is. -/
theorem models_not_always_written :
    ¬ ∀ (declarations : List Declaration) (budget : Nat) (policy : Policy) (type : TypeExpr)
      (model : Model),
      (resolveWithin budget (.ofTable (.ofList declarations)) policy type).1 = .ok model →
        ∃ listing room json, model.encode listing room = .ok json := by
  intro h
  obtain ⟨listing, room, hwritten⟩ := h [] 1 ⟨.expand, false⟩ _ _
    (resolveWithin_hexadecimal 0 [] ⟨.expand, false⟩ (10 ^ Number.digitLimit))
  have hwritable := (Model.encode_stops listing room _).exists_ok_iff.mp hwritten
  have hshort := hwritable.short _ List.mem_cons_self _ (.here _)
  exact Nat.not_lt.mpr (Int.natAbs_natCast _).ge hshort

end TypeSchema
