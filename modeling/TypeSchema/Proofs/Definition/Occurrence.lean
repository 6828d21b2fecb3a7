import TypeSchema.Proofs.Reachability.Course
import TypeSchema.Proofs.Schema.Obstacles

/-!
# The definitions of expand mode stand in the root

In `expand` mode a definition is added only if its name was met again while its declaration was
open, and at that place the schema of the declaration mentions the name. The schema itself goes
where the reference to the declaration stood. So what a resolution marks or defines can be read off
the schemas that it results in. A name that is still open, or was defined before, has no new
definition; that the marks from before are of such names is the one fact about the state that the
argument needs.
-/

namespace TypeSchema

namespace Schema

variable {schema middle part : Schema} {name : String}

theorem Contains.trans (first : schema.Contains middle) (second : middle.Contains part) :
    schema.Contains part := by
  induction first with
  | here _ => exact second
  | deeper hchild _ ih => exact .deeper hchild (ih second)

theorem contains_child {child : Schema} (hchild : child ∈ schema.children) :
    schema.Contains child :=
  .deeper hchild (.here child)

theorem references_eq_flatMap (hne : ∀ name, schema ≠ reference name) :
    schema.references = schema.children.flatMap references := by
  cases schema with
  | reference name => exact absurd rfl (hne name)
  | array inner | tupleElement _ inner | member _ _ inner | enumMember _ inner =>
      simp [references, children]
  | union parts | intersection parts | tuple parts | object parts | enum _ parts =>
      rw [references, referencesOfAll_eq_flatMap]
      rfl
  | _ => rfl

/-- The names that a schema mentions are those of the references that it contains. -/
theorem mem_references_iff : name ∈ schema.references ↔ schema.Contains (.reference name) := by
  constructor
  · intro h
    induction schema using induction_on_children with
    | step schema ih =>
        by_cases href : ∃ other, schema = reference other
        · obtain ⟨other, rfl⟩ := href
          obtain rfl := List.mem_singleton.mp h
          exact .here _
        · rw [references_eq_flatMap (not_exists.mp href), List.mem_flatMap] at h
          obtain ⟨child, hchild, hname⟩ := h
          exact .deeper hchild (ih child hchild hname)
  · intro h
    generalize hpart : reference name = part at h
    induction h with
    | here schema =>
        subst hpart
        exact List.mem_singleton_self name
    | @deeper schema child part hchild _ ih =>
        have hne : ∀ other, schema ≠ reference other := by
          rintro other rfl
          cases hchild
        rw [references_eq_flatMap hne, List.mem_flatMap]
        exact ⟨child, hchild, ih hpart⟩

end Schema

namespace Context

/-- What is marked or defined between the two states stands in the schemas, and a definition that
is added there mentions its own name. -/
structure ShownBy (schemas : List Schema) (c c' : Context) : Prop where
  marked : ∀ name ∈ c'.recursive,
    name ∈ c.recursive ∨ ∃ schema ∈ schemas, schema.Contains (.reference name)
  defined : ∀ entry ∈ c'.deps, entry ∈ c.deps ∨
    (entry.2.Contains (.reference entry.1) ∧ ∃ schema ∈ schemas, schema.Contains entry.2)

namespace ShownBy

variable {schemas schemas' : List Schema} {schema : Schema} {name : String}
  {c middle c' : Context}

theorem note (c : Context) (events : List Event) : ShownBy schemas c (c.note events) :=
  ⟨fun _ => .inl, fun _ => .inl⟩

theorem refl (c : Context) : ShownBy schemas c c :=
  ⟨fun _ => .inl, fun _ => .inl⟩

theorem trans (first : ShownBy schemas c middle) (second : ShownBy schemas middle c') :
    ShownBy schemas c c' where
  marked := by
    intro name hname
    obtain hname | hshown := second.marked name hname
    · exact first.marked name hname
    · exact .inr hshown
  defined := by
    intro entry hentry
    obtain hentry | hshown := second.defined entry hentry
    · exact first.defined entry hentry
    · exact .inr hshown

/-- What stands in the schemas stands wherever these do. -/
theorem within (h : ShownBy schemas c c')
    (hwithin : ∀ schema ∈ schemas, ∃ outer ∈ schemas', outer.Contains schema) :
    ShownBy schemas' c c' := by
  have hlift : ∀ {part : Schema}, (∃ schema ∈ schemas, schema.Contains part) →
      ∃ outer ∈ schemas', outer.Contains part := by
    rintro part ⟨schema, hmem, hpart⟩
    obtain ⟨outer, houter, hschema⟩ := hwithin schema hmem
    exact ⟨outer, houter, hschema.trans hpart⟩
  exact ⟨fun name hname => (h.marked name hname).imp_right hlift,
    fun entry hentry => (h.defined entry hentry).imp_right (And.imp_right hlift)⟩

theorem of_subset (h : ShownBy schemas c c') (hsubset : schemas ⊆ schemas') :
    ShownBy schemas' c c' :=
  h.within fun schema hmem => ⟨schema, hsubset hmem, .here schema⟩

theorem of_children (h : ShownBy schemas c c') (hchildren : schemas ⊆ schema.children) :
    ShownBy [schema] c c' :=
  h.within fun _ hmem =>
    ⟨schema, List.mem_singleton_self schema, Schema.contains_child (hchildren hmem)⟩

theorem cons (head : ShownBy [schema] c middle) (tail : ShownBy schemas middle c') :
    ShownBy (schema :: schemas) c c' := by
  refine .trans (head.of_subset fun _ hmem => ?_) (tail.of_subset (List.subset_cons_self _ _))
  exact List.mem_singleton.mp hmem ▸ List.mem_cons_self

/-- A declaration that was met again below itself has its name in the schema of its body. -/
theorem record (hc : c.Coherent []) (hmissing : name ∉ c.defined) (hfresh : name ∉ c.resolving)
    (h : ShownBy [schema] (c.enter name) c') (hmarked : name ∈ c'.recursive) :
    ShownBy [schema] c
      ((c'.leave.note [.definitionAdded name]).define name schema) := by
  -- Marks stay when a declaration is left, so the mark could be older than the body.
  have hunmarked : name ∉ c.recursive := by
    intro hold
    obtain hopen | hdefined := hc.recursive_known name hold
    · exact hfresh hopen
    · exact hmissing hdefined
  refine ⟨h.marked, fun entry hentry => ?_⟩
  obtain hentry | hentry := List.mem_append.mp hentry
  · exact h.defined entry hentry
  · obtain rfl := List.mem_singleton.mp hentry
    obtain hold | ⟨other, hother, hname⟩ := h.marked name hmarked
    · exact absurd hold hunmarked
    · obtain rfl := List.mem_singleton.mp hother
      exact .inr ⟨hname, other, hother, .here other⟩

end ShownBy

end Context

namespace Resolve

open Context

variable {env : Environment} {policy : Policy} {c c' : Context} {schema : Schema}
  {first : Declaration} {type : TypeExpr}

/-- From a coherent state, what a resolution marks and defines stands in its result. -/
abbrev Showing : Account TypeExpr Schema :=
  fun _ c schema c' => c.Coherent [] → ShownBy [schema] c c'

/-- What is known of the parts of a rule, and what is to be shown of the whole. -/
abbrev Displaying : Account TypeExpr Schema :=
  fun type c schema c' => c.Yields [] schema.references c' ∧ Showing type c schema c'

theorem sequence_shown {types : List TypeExpr} {schemas : List Schema}
    (h : Sequence Displaying types c schemas c') (hc : c.Coherent []) : ShownBy schemas c c' := by
  induction h with
  | nil => exact .refl _
  | cons head _ ih =>
      obtain ⟨⟨-, hcoherent⟩, hshows⟩ := head
      exact (hshows hc).cons (ih (hcoherent hc).1)

theorem memberRule_shown {seen : List String} {members : List Member} {schemas : List Schema}
    (h : MemberRule Displaying seen members c schemas c') (hc : c.Coherent []) :
    ShownBy schemas c c' := by
  induction h with
  | nil => exact .refl _
  | cons _ head _ _ ih =>
      obtain ⟨⟨-, hcoherent⟩, hshows⟩ := head
      exact ((hshows hc).of_children (List.Subset.refl _)).cons (ih (hcoherent hc).1)

theorem bodyRule_shown (h : BodyRule env Displaying first c schema c') (hc : c.Coherent []) :
    ShownBy [schema] c c' := by
  cases h with
  | enum _ => exact .note c _
  | interface contents =>
      have hmembers := memberRule_shown contents ((yields_note c _).2 hc).1
      exact (ShownBy.note c _).trans (hmembers.of_children (List.Subset.refl _))
  | typeAlias aliased => exact aliased.2 hc

theorem namedRule_shown {name : String} {run : Context → Schema → Context → Prop}
    (hrun : ∀ c schema c', run c schema c' → c.Coherent [] → ShownBy [schema] c c')
    (h : NamedRule .expand name run c schema c') (hc : c.Coherent []) :
    ShownBy [schema] c c' := by
  cases h with
  | finished _ => exact .refl c
  | reentered _ _ =>
      refine ⟨fun other hother => ?_, fun _ => .inl⟩
      obtain rfl | hother := List.mem_cons.mp hother
      · exact .inr ⟨_, List.mem_singleton_self _, .here _⟩
      · exact .inl hother
  | recorded missing fresh resolved kept =>
      have hdefined := not_mem_of_lookup missing
      have hbody := hrun _ _ _ resolved (hc.enter hdefined fresh)
      exact hbody.record hc hdefined fresh (kept.resolve_left (by simp))
  | inlined missing fresh resolved _ =>
      have hbody := hrun _ _ _ resolved (hc.enter (not_mem_of_lookup missing) fresh)
      exact ⟨hbody.marked, hbody.defined⟩

/-- **Everything is shown.** What a successful resolution in `expand` mode marks and defines stands
in its result. -/
theorem typeWithin_shown {aliases : Bool} {budget : Nat}
    (h : typeWithin env ⟨.expand, aliases⟩ budget type c = .ok schema c') :
    Showing type c schema c' := by
  refine rule_induction_with (typeWithin_yields []) ?_ h
  intro type c schema c' hrule hc
  cases hrule with
  | keyword _ | literal _ => exact .refl c
  | array inner => exact (inner.2 hc).of_children (List.Subset.refl _)
  | parenthesized inner => exact inner.2 hc
  | union inner | intersection inner =>
      exact (sequence_shown inner hc).of_children (List.Subset.refl _)
  | tuple inner =>
      refine (sequence_shown inner hc).within fun element helement => ?_
      obtain ⟨position, hposition, rfl⟩ := List.mem_iff_getElem.mp helement
      exact ⟨_, List.mem_singleton_self _, .deeper (List.mem_mapIdx.mpr ⟨position, hposition, rfl⟩)
        (Schema.contains_child (List.mem_singleton_self _))⟩
  | object inner => exact (memberRule_shown inner hc).of_children (List.Subset.refl _)
  | reference inner =>
      cases inner with
      | member _ _ ends =>
          rw [ends, note_note, note_note]
          exact .note c _
      | definition _ _ named =>
          rw [note_note] at named
          refine (ShownBy.note c _).trans (namedRule_shown (fun _ _ _ => bodyRule_shown) named ?_)
          exact ((yields_note c _).2 hc).1

end Resolve

/-- **The table of `expand` mode is minimal.** Exactly the names that the root mentions are defined,
each of them once. A definition stands in the root as it is and mentions its own name. -/
theorem expand_minimal {budget : Nat} {declarations : List Declaration} {aliases : Bool}
    {type : TypeExpr} {model : Model}
    (h : (resolveWithin budget (.ofTable (.ofList declarations)) ⟨.expand, aliases⟩ type).1 =
      .ok model) :
    model.defined.Nodup ∧
      (∀ name, name ∈ model.defined ↔ model.root.Contains (.reference name)) ∧
      ∀ entry ∈ model.deps,
        model.root.Contains entry.2 ∧ entry.2.Contains (.reference entry.1) := by
  obtain ⟨c, hrun, hdeps⟩ := resolveWithin_eq_ok_iff.mp h
  obtain ⟨hnodup, hclosed⟩ := resolveWithin_coherent h
  have hshown := Resolve.typeWithin_shown hrun Context.coherent_empty
  have hentries : ∀ entry ∈ model.deps,
      model.root.Contains entry.2 ∧ entry.2.Contains (.reference entry.1) := by
    intro entry hentry
    obtain hold | ⟨hname, schema, hschema, hpart⟩ := hshown.defined entry (hdeps ▸ hentry)
    · cases hold
    · obtain rfl := List.mem_singleton.mp hschema
      exact ⟨hpart, hname⟩
  refine ⟨hnodup, fun name => ⟨fun hdefined => ?_, fun hroot => ?_⟩, hentries⟩
  · obtain ⟨entry, hentry, rfl⟩ := List.mem_map.mp hdefined
    obtain ⟨hpart, hname⟩ := hentries entry hentry
    exact hpart.trans hname
  · exact hclosed.1 name (Schema.mem_references_iff.mpr hroot)

/-- The inner one of two interfaces that refer to each other is inlined twice: with a reference
while the outer one is open, and with the finished definition of the outer one afterwards. -/
theorem expand_minimal_interlinked :
    let type : TypeExpr := .tuple none [.reference none "A" [], .reference none "B" []]
    let reentered : Schema := .object [.member "a" true (.reference "A")]
    let definition : Schema := .object [.member "b" false reentered]
    let root : Schema := .tuple [.tupleElement 0 definition,
      .tupleElement 1 (.object [.member "a" true definition])]
    (resolveWithin 5 (.ofTable (.ofList interlinked)) ⟨.expand, false⟩ type).1 =
        .ok ⟨root, [("A", definition)]⟩ ∧
      (∀ name, name ∈ ["A"] ↔ root.Contains (.reference name)) ∧
      root.Contains definition ∧ definition.Contains (.reference "A") := by
  intro type reentered definition root
  have h : (resolveWithin 5 (.ofTable (.ofList interlinked)) ⟨.expand, false⟩ type).1 =
      .ok ⟨root, [("A", definition)]⟩ := rfl
  obtain ⟨-, hnames, hentries⟩ := expand_minimal h
  exact ⟨h, hnames, hentries _ (List.mem_singleton_self _)⟩

end TypeSchema
