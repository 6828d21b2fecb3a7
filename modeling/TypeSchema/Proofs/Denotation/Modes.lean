import TypeSchema.Proofs.Denotation.Agreement
import TypeSchema.Proofs.Resolution.Table

/-!
# Both modes denote the same type

In `expand` mode a declaration may be inlined, cut to a reference or copied from the table; in
`share` mode it is always a reference. The invariant is that every finished definition denotes what
its name stands for in the source. Then whatever a reference becomes denotes what the reference
stands for, and along every path both models show what the source shows.
-/

namespace TypeSchema

/-- Everything that is declared under a name has that name. -/
def Environment.WellNamed (env : Environment) : Prop :=
  ∀ name, ∀ declaration ∈ env.declarations name, declaration.qualifiedName = name

theorem Environment.wellNamed_ofTable (declarations : List Declaration) :
    (ofTable (.ofList declarations)).WellNamed :=
  fun _ _ h => DeclarationTable.qualifiedName_of_mem_declarations h

/-- Every finished definition denotes what its name stands for. -/
def Faithful (env : Environment) (aliases : Bool) (deps : List (String × Schema)) : Prop :=
  ∀ name schema, (name, schema) ∈ deps →
    ∃ target, env.place? aliases name = some target ∧ Denotes env aliases schema target

/-- A resolution keeps definitions faithful, and its result denotes the place. -/
def Depicts (env : Environment) (aliases : Bool) (place : Place) (c : Context) (schema : Schema)
    (c' : Context) : Prop :=
  Faithful env aliases c.deps → Faithful env aliases c'.deps ∧ Denotes env aliases schema place

namespace Resolve

variable {env : Environment} {policy : Policy} {aliases : Bool} {c c' : Context} {name : String}
  {schema : Schema} {place target : Place}

theorem sequence_depicts {types : List TypeExpr} {schemas : List Schema}
    (h : Sequence (fun type => Depicts env aliases (.type type)) types c schemas c')
    (hc : Faithful env aliases c.deps) :
    Faithful env aliases c'.deps ∧
      List.Forall₂ (fun schema type => Denotes env aliases schema (.type type)) schemas types := by
  induction h with
  | nil => exact ⟨hc, .nil⟩
  | cons head _ ih =>
      obtain ⟨hmiddle, hdenotes⟩ := head hc
      obtain ⟨hc', hrest⟩ := ih hmiddle
      exact ⟨hc', .cons hdenotes hrest⟩

theorem memberRule_depicts {seen : List String} {members : List Member} {schemas : List Schema}
    (h : MemberRule (fun type => Depicts env aliases (.type type)) seen members c schemas c')
    (hc : Faithful env aliases c.deps) :
    Faithful env aliases c'.deps ∧ List.Forall₂ (MemberDenotes env aliases) schemas members := by
  induction h with
  | nil => exact ⟨hc, .nil⟩
  | cons plain head _ _ ih =>
      obtain ⟨hmiddle, hdenotes⟩ := head hc
      obtain ⟨hc', hrest⟩ := ih hmiddle
      exact ⟨hc', .cons (.property plain hdenotes) hrest⟩

/-- The body of a declaration denotes what references to the declaration stand for. -/
theorem bodyRule_depicts {declaration : Declaration}
    (htarget : declaration.place? aliases = some target)
    (h : BodyRule env (fun type => Depicts env aliases (.type type)) declaration c schema c') :
    Depicts env aliases target c schema c' := by
  intro hc
  cases h with
  | enum values =>
      obtain rfl := Option.some.inj htarget
      exact ⟨hc, .enum values⟩
  | interface contents =>
      obtain rfl := Option.some.inj htarget
      obtain ⟨hc', hmembers⟩ := memberRule_depicts contents hc
      exact ⟨hc', .object hmembers⟩
  | typeAlias aliased =>
      cases aliases with
      | false => cases htarget
      | true =>
          obtain rfl := Option.some.inj htarget
          exact aliased hc

/-- Whether a declaration is finished, open, recorded or inlined, what a reference to it becomes
denotes every place that stands for it. -/
theorem namedRule_depicts {mode : ReferenceMode} {run : Context → Schema → Context → Prop}
    (htarget : env.place? aliases name = some target)
    (hplace : (env.graph aliases).next place = some target)
    (hrun : ∀ c schema c', run c schema c' → Depicts env aliases target c schema c')
    (h : NamedRule mode name run c schema c') : Depicts env aliases place c schema c' := by
  intro hc
  have hreference : Denotes env aliases (.reference name) place :=
    .reference ⟨_, hplace, .stop⟩ htarget
  have hoccurrence : ∀ {inner}, Denotes env aliases inner target →
      Denotes env aliases (mode.occurrence name inner) place := by
    intro inner hinner
    cases mode with
    | expand => exact .of_next hplace hinner
    | share => exact hreference
  cases h with
  | finished found =>
      obtain ⟨target', htarget', hdenotes⟩ := hc _ _ (mem_of_lookup found)
      obtain rfl := Option.some.inj (htarget.symm.trans htarget')
      exact ⟨hc, hoccurrence hdenotes⟩
  | reentered _ _ => exact ⟨hc, hreference⟩
  | recorded _ _ resolved _ =>
      obtain ⟨hafter, hdenotes⟩ := hrun _ _ _ resolved hc
      refine ⟨?_, hoccurrence hdenotes⟩
      intro other inner hother
      obtain hother | hother := List.mem_append.mp hother
      · exact hafter other inner hother
      · obtain ⟨rfl, rfl⟩ := Prod.mk.inj (List.mem_singleton.mp hother)
        exact ⟨target, htarget, hdenotes⟩
  | inlined _ _ resolved _ =>
      obtain ⟨hafter, hdenotes⟩ := hrun _ _ _ resolved hc
      exact ⟨hafter, .of_next hplace hdenotes⟩

theorem referenceRule_depicts (named : env.WellNamed) {arguments : List TypeExpr}
    (hplace : (env.graph policy.aliases).next place = env.place? policy.aliases name)
    (h : ReferenceRule env policy (BodyRule env fun type => Depicts env policy.aliases (.type type))
      name arguments c schema c') :
    Depicts env policy.aliases place c schema c' := by
  intro hc
  cases h with
  | @member member _ _ _ _ found value ends =>
      have htarget : env.place? policy.aliases name = some (.enumMember member) :=
        env.place?_of_declarations found
      subst ends
      exact ⟨hc, .of_next (hplace.trans htarget) (.enumMember value)⟩
  | @definition first others _ _ _ found followed inner =>
      obtain ⟨target, hbody⟩ := Declaration.exists_place_of_isFollowed followed
      have htarget : env.place? policy.aliases name = some target :=
        (env.place?_of_declarations found).trans hbody
      have hname : first.qualifiedName = name := named name first (by simp [found])
      rw [hname] at inner
      exact namedRule_depicts htarget (hplace.trans htarget)
        (fun _ _ _ => bodyRule_depicts hbody) inner hc

/-- **The invariant of resolution.** Every successful resolution keeps definitions faithful, and
its result denotes the type expression. -/
theorem typeWithin_depicts (named : env.WellNamed) {budget : Nat} {type : TypeExpr}
    (h : typeWithin env policy budget type c = .ok schema c') :
    Depicts env policy.aliases (.type type) c schema c' := by
  refine rule_induction (P := fun type => Depicts env policy.aliases (.type type)) ?_ h
  intro type c schema c' hrule hc
  cases hrule with
  | @keyword _ word schema _ meaning =>
      refine ⟨hc, .of_isLeaf (Keyword.isLeaf_of_schema? meaning) ?_ fun _ => rfl⟩
      simp [Environment.graph, Environment.typeLabel?, meaning]
  | @literal _ literal schema _ meaning =>
      refine ⟨hc, .of_isLeaf (Environment.isLeaf_of_literalSchema? meaning) ?_ fun _ => rfl⟩
      simp [Environment.graph, Environment.typeLabel?, meaning]
  | array inner => exact (inner hc).imp_right .array
  | union inner => exact (sequence_depicts inner hc).imp_right .union
  | intersection inner => exact (sequence_depicts inner hc).imp_right .intersection
  | parenthesized inner => exact (inner hc).imp_right (.of_next rfl)
  | tuple inner => exact (sequence_depicts inner hc).imp_right .tuple
  | object inner => exact (memberRule_depicts inner hc).imp_right .object
  | reference inner => exact referenceRule_depicts named rfl inner hc

end Resolve

theorem Schema.references_subset_of_child? {schema child : Schema} {selector : Selector}
    (h : schema.child? selector = some child) : child.references ⊆ schema.references := by
  have hmem : ∀ {children : List Schema}, child ∈ children →
      child.references ⊆ Schema.referencesOfAll children := by
    intro children hchild name hname
    rw [Schema.referencesOfAll_eq_flatMap]
    exact List.mem_flatMap.mpr ⟨child, hchild, hname⟩
  unfold Schema.child? at h
  split at h
  · exact Option.some.inj h ▸ List.Subset.refl _
  · exact hmem (List.mem_of_getElem? h)
  · exact hmem (List.mem_of_getElem? h)
  · exact hmem (List.mem_of_getElem? h)
  · exact hmem (List.mem_of_find?_eq_some h)
  · exact hmem (List.mem_of_getElem? h)
  · exact Option.some.inj h ▸ List.Subset.refl _
  · exact Option.some.inj h ▸ List.Subset.refl _
  · exact Option.some.inj h ▸ List.Subset.refl _
  · cases h

/-- A schema of a model is matched with the places that it denotes, as long as its references can
be looked up. -/
def Model.Depicts (model : Model) (env : Environment) (aliases : Bool) (schema : Schema)
    (place : Place) : Prop :=
  Denotes env aliases schema place ∧ ∀ name ∈ schema.references, name ∈ model.defined

theorem Model.matches_of_depicts {model : Model} {env : Environment} {aliases : Bool}
    (closed : model.Closed) (faithful : Faithful env aliases model.deps) {schema : Schema}
    {place : Place} (h : model.Depicts env aliases schema place) :
    Graph.Matches model.graph (env.graph aliases) (model.Depicts env aliases) schema place := by
  obtain ⟨hdenotes, hreferences⟩ := h
  cases hdenotes with
  | @reference name _ target later found =>
      have hdefined : name ∈ model.defined := hreferences name List.mem_cons_self
      obtain ⟨definition, hlookup⟩ : ∃ definition, model.deps.lookup name = some definition :=
        Option.ne_none_iff_exists'.mp fun hnone => not_mem_of_lookup hnone hdefined
      have hentry : (name, definition) ∈ model.deps := mem_of_lookup hlookup
      obtain ⟨target', htarget', hdefinition⟩ := faithful name definition hentry
      obtain rfl := Option.some.inj (found.symm.trans htarget')
      exact .reference hlookup later ⟨hdefinition, closed.2 _ hentry⟩
  | node leads here there same children =>
      refine .node leads here there same fun selector child child' hchild hchild' => ?_
      refine ⟨children selector child child' hchild hchild', fun name hname => ?_⟩
      exact hreferences name (Schema.references_subset_of_child? hchild hname)

section Models

variable {env : Environment} {budget : Nat} {policy : Policy} {type : TypeExpr} {model : Model}

theorem resolveWithin_matches (named : env.WellNamed)
    (h : (resolveWithin budget env policy type).1 = .ok model) :
    model.Depicts env policy.aliases model.root (.type type) ∧
      ∀ schema place, model.Depicts env policy.aliases schema place →
        Graph.Matches model.graph (env.graph policy.aliases) (model.Depicts env policy.aliases)
          schema place := by
  have hclosed : model.Closed := (resolveWithin_coherent h).2
  obtain ⟨c, hrun, hdeps⟩ := resolveWithin_eq_ok_iff.mp h
  obtain ⟨hfaithful, hroot⟩ :=
    Resolve.typeWithin_depicts named hrun fun _ _ hentry => absurd hentry List.not_mem_nil
  rw [hdeps] at hfaithful
  exact ⟨⟨hroot, hclosed.1⟩, fun _ _ => Model.matches_of_depicts hclosed hfaithful⟩

/-- **Models show what the source shows.** -/
theorem resolveWithin_shows_iff (named : env.WellNamed)
    (h : (resolveWithin budget env policy type).1 = .ok model) (path : List Selector)
    (label : Label) :
    model.graph.Shows model.root path label ↔
      (env.graph policy.aliases).Shows (.type type) path label := by
  obtain ⟨hroot, hmatches⟩ := resolveWithin_matches named h
  exact Graph.shows_iff_of_matches model.graph_proper (env.graph_proper policy.aliases) hmatches
    hroot

/-- Where a type expression has a model, every place that a path leads to has a label. -/
theorem exists_label_of_resolveWithin (named : env.WellNamed)
    (h : (resolveWithin budget env policy type).1 = .ok model) {path : List Selector}
    {place : Place} (leads : (env.graph policy.aliases).Leads (.type type) path place)
    (hend : (env.graph policy.aliases).next place = none) :
    ∃ label, (env.graph policy.aliases).label place = some label := by
  obtain ⟨hroot, hmatches⟩ := resolveWithin_matches named h
  obtain ⟨_, label, -, -, hlabel⟩ := Graph.leads_of_matches (env.graph_proper policy.aliases)
    hmatches (hmatches _ _ hroot) leads hend
  exact ⟨label, hlabel⟩

end Models

/-- **Both modes denote the same type.** Along every path, an `expand` model and a `share` model of
the same type expression arrive at the same label, or neither arrives at one; and it is the label
that the path arrives at in the source, where no definition is looked up. -/
theorem modes_show_same {declarations : List Declaration} {aliases : Bool} {type : TypeExpr}
    {budget budget' : Nat} {expanded shared : Model}
    (hexpand : (resolveWithin budget (.ofTable (.ofList declarations)) ⟨.expand, aliases⟩ type).1 =
      .ok expanded)
    (hshare : (resolveWithin budget' (.ofTable (.ofList declarations)) ⟨.share, aliases⟩ type).1 =
      .ok shared)
    (path : List Selector) (label : Label) :
    (expanded.graph.Shows expanded.root path label ↔ shared.graph.Shows shared.root path label) ∧
      (shared.graph.Shows shared.root path label ↔
        ((Environment.ofTable (.ofList declarations)).graph aliases).Shows (.type type) path
          label) := by
  have hnamed := Environment.wellNamed_ofTable declarations
  have hexpanded := resolveWithin_shows_iff hnamed hexpand path label
  have hshared := resolveWithin_shows_iff hnamed hshare path label
  exact ⟨hexpanded.trans hshared.symm, hshared⟩

/-- Once around two interfaces that refer to each other. -/
theorem modes_show_same_interlinked :
    let expanded : Schema :=
      .object [.member "b" false (.object [.member "a" true (.reference "A")])]
    let shared : List (String × Schema) :=
      [("B", .object [.member "a" true (.reference "A")]),
        ("A", .object [.member "b" false (.reference "B")])]
    let env : Environment := .ofTable (.ofList interlinked)
    let type : TypeExpr := .reference none "A" []
    let path : List Selector := [.member "b", .content, .member "a", .content, .member "b"]
    let label : Label := .member "b" false
    (resolveWithin 8 env ⟨.expand, false⟩ type).1 = .ok ⟨expanded, [("A", expanded)]⟩ ∧
      (resolveWithin 8 env ⟨.share, false⟩ type).1 = .ok ⟨.reference "A", shared⟩ ∧
      ((Model.graph ⟨expanded, [("A", expanded)]⟩).Shows expanded path label ↔
        (Model.graph ⟨.reference "A", shared⟩).Shows (.reference "A") path label) ∧
      ((Model.graph ⟨.reference "A", shared⟩).Shows (.reference "A") path label ↔
        (env.graph false).Shows (.type type) path label) ∧
      (env.graph false).Shows (.type type) path label := by
  intro expanded shared env type path label
  have hexpand : (resolveWithin 8 env ⟨.expand, false⟩ type).1 =
      .ok ⟨expanded, [("A", expanded)]⟩ := rfl
  have hshare : (resolveWithin 8 env ⟨.share, false⟩ type).1 = .ok ⟨.reference "A", shared⟩ := rfl
  obtain ⟨hmodes, hsource⟩ := modes_show_same hexpand hshare path label
  refine ⟨hexpand, hshare, hmodes, hsource, ?_⟩
  exact ⟨_, .next rfl (.child rfl (.child rfl (.next rfl (.child rfl (.child rfl (.next rfl
    (.child rfl .stop))))))), rfl⟩

end TypeSchema
