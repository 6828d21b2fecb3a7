import TypeSchema.Proofs.Translation.Inlined

/-!
# Definitions before their uses

In `share` mode a definition is added when its declaration is left, and whatever it mentions was
met while the declaration was open. What was finished by then has its definition further up in the
table. What was not finished was open as well, and open declarations all lead to the one that is
being resolved; so a declaration that is mentioned too early leads back to the declaration that
mentions it, and both lie on a cycle.
-/

namespace TypeSchema

/-- The declarations of the two names lie on a cycle, or they are one that reaches itself. -/
def Environment.OnCycle (env : Environment) (aliases : Bool) (user used : String) : Prop :=
  ∃ declaration declaration' : Declaration, env.IsFirst declaration ∧ env.IsFirst declaration' ∧
    declaration.qualifiedName = user ∧ declaration'.qualifiedName = used ∧
    Relation.TransGen (env.Below aliases [])
      (.declaration declaration) (.declaration declaration') ∧
    env.Reaches aliases [] (.declaration declaration') (.declaration declaration)

/-- Whatever a definition mentions is defined further up in the table, but for the exceptions. -/
def DefinedInOrder (excepted : String → String → Prop) (deps : List (String × Schema)) : Prop :=
  ∀ before name schema after, deps = before ++ (name, schema) :: after →
    ∀ used ∈ schema.references, used ∈ before.map Prod.fst ∨ excepted name used

theorem definedInOrder_nil (excepted : String → String → Prop) : DefinedInOrder excepted [] := by
  intro before name schema after h
  simp at h

theorem DefinedInOrder.append_singleton {excepted : String → String → Prop}
    {deps : List (String × Schema)} {name : String} {schema : Schema}
    (h : DefinedInOrder excepted deps)
    (hnew : ∀ used ∈ schema.references, used ∈ deps.map Prod.fst ∨ excepted name used) :
    DefinedInOrder excepted (deps ++ [(name, schema)]) := by
  intro before other schema' after hsplit
  obtain rfl | ⟨after', last, rfl⟩ := List.eq_nil_or_concat after
  · obtain ⟨rfl, hlast⟩ := List.append_inj' hsplit rfl
    cases hlast
    exact hnew
  · rw [List.concat_eq_append, ← List.cons_append, ← List.append_assoc] at hsplit
    obtain ⟨rfl, -⟩ := List.append_inj' hsplit rfl
    exact h before other schema' after' rfl

/-- All open declarations lead to the node. -/
def Context.Approaches (env : Environment) (aliases : Bool) (c : Context) (node : Node) : Prop :=
  ∀ name ∈ c.resolving, ∃ declaration : Declaration, env.IsFirst declaration ∧
    declaration.qualifiedName = name ∧ env.Reaches aliases [] (.declaration declaration) node

namespace Context

variable {env : Environment} {aliases : Bool} {c c' : Context} {node node' : Node}
  {first : Declaration}

theorem approaches_empty : Approaches env aliases {} node :=
  fun _ hopen => absurd hopen List.not_mem_nil

theorem Approaches.step (h : c.Approaches env aliases node)
    (step : env.Below aliases [] node node') : c.Approaches env aliases node' := by
  intro name hopen
  obtain ⟨declaration, hfirst, hname, hreaches⟩ := h name hopen
  exact ⟨declaration, hfirst, hname, hreaches.tail step⟩

theorem Approaches.of_resolving_eq (hopen : c'.resolving = c.resolving)
    (h : c.Approaches env aliases node) : c'.Approaches env aliases node := by
  intro name hname
  exact h name (hopen ▸ hname)

theorem Approaches.enter (hfirst : env.IsFirst first)
    (h : c.Approaches env aliases (.declaration first)) :
    (c.enter first.qualifiedName).Approaches env aliases (.declaration first) := by
  intro name hopen
  obtain rfl | hopen := List.mem_cons.mp hopen
  · exact ⟨first, hfirst, rfl, .refl⟩
  · exact h name hopen

end Context

namespace Resolve

open Context

variable {env : Environment} {aliases : Bool} {c c' : Context} {schema : Schema} {name : String}
  {first : Declaration} {type : TypeExpr}

/-! ### What results mention -/

/-- The result mentions declarations only that the type expression reaches. -/
def Mentions (env : Environment) (aliases : Bool) : Account TypeExpr Schema :=
  fun type _ schema _ => ∀ name ∈ schema.references, env.LeadsTo aliases [] (.type type) name

theorem sequence_mentions {types : List TypeExpr} {schemas : List Schema}
    (h : Sequence (Mentions env aliases) types c schemas c') :
    ∀ name ∈ Schema.referencesOfAll schemas,
      ∃ type ∈ types, env.LeadsTo aliases [] (.type type) name := by
  induction h with
  | nil => exact fun _ hname => absurd hname List.not_mem_nil
  | @cons type _ _ _ _ _ _ head _ ih =>
      intro name hname
      obtain hname | hname := List.mem_append.mp hname
      · exact ⟨type, List.mem_cons_self, head name hname⟩
      · obtain ⟨other, hother, hleads⟩ := ih name hname
        exact ⟨other, List.mem_cons_of_mem type hother, hleads⟩

theorem memberRule_mentions {seen : List String} {members : List Member} {schemas : List Schema}
    (h : MemberRule (Mentions env aliases) seen members c schemas c') :
    ∀ name ∈ Schema.referencesOfAll schemas,
      ∃ type ∈ members.filterMap Member.type?, env.LeadsTo aliases [] (.type type) name := by
  obtain ⟨inner, hparts, hreferences⟩ := h.parts
  exact hreferences ▸ sequence_mentions hparts

theorem bodyRule_mentions (h : BodyRule env (Mentions env aliases) first c schema c') :
    ∀ name ∈ schema.references,
      ∃ part ∈ first.parts, env.LeadsTo aliases [] (.type part) name := by
  cases h with
  | enum values =>
      rw [Schema.references, references_eq_nil_of_members values]
      exact fun _ hname => absurd hname List.not_mem_nil
  | interface contents => exact memberRule_mentions contents
  | @typeAlias _ _ type _ _ _ aliased =>
      exact fun name hname => ⟨type, List.mem_singleton_self type, aliased name hname⟩

/-- In `share` mode a reference becomes the name of its declaration. -/
theorem referenceRule_mentions {location : Option Location} {B : Account Declaration Schema}
    {arguments : List TypeExpr}
    (h : ReferenceRule env ⟨.share, aliases⟩ B name arguments c schema c') :
    ∀ used ∈ schema.references,
      env.LeadsTo aliases [] (.type (.reference location name arguments)) used := by
  intro used hused
  cases h with
  | member _ value _ =>
      rw [references_eq_nil_of_member value] at hused
      cases hused
  | @definition first _ _ _ _ found followed named =>
      have hstep : env.Below aliases [] (.type (.reference location name arguments))
          (.declaration first) := .definition found followed List.not_mem_nil
      cases named with
      | finished _ | reentered _ _ | recorded _ _ _ _ =>
          obtain rfl := List.mem_singleton.mp hused
          exact ⟨first, rfl, .single hstep⟩
      | inlined _ _ _ dropped => simp at dropped

theorem typeWithin_mentions {budget : Nat}
    (h : typeWithin env ⟨.share, aliases⟩ budget type c = .ok schema c') :
    Mentions env aliases type c schema c' := by
  refine rule_induction (P := Mentions env aliases) ?_ h
  intro type c schema c' hrule
  have hparts : ∀ {names : List String}, (∀ name ∈ names,
      ∃ part ∈ type.parts, env.LeadsTo aliases [] (.type part) name) →
        ∀ name ∈ names, env.LeadsTo aliases [] (.type type) name := by
    intro names hnames name hname
    obtain ⟨part, hpart, hleads⟩ := hnames name hname
    exact .of_reaches (.single (.part hpart)) hleads
  intro name hname
  cases hrule with
  | keyword meaning =>
      rw [references_eq_nil_of_isLeaf (Keyword.isLeaf_of_schema? meaning)] at hname
      cases hname
  | literal meaning =>
      rw [references_eq_nil_of_isLeaf (Environment.isLeaf_of_literalSchema? meaning)] at hname
      cases hname
  | array inner | parenthesized inner =>
      exact .of_reaches (.single (.part (List.mem_singleton_self _))) (inner name hname)
  | union inner | intersection inner => exact hparts (sequence_mentions inner) name hname
  | tuple inner =>
      have htuple := Schema.referencesOfAll_mapIdx
        (f := fun position schema => .tupleElement position schema) fun _ _ => rfl
      rw [Schema.references, htuple] at hname
      exact hparts (sequence_mentions inner) name hname
  | object inner => exact hparts (memberRule_mentions inner) name hname
  | reference inner => exact referenceRule_mentions inner name hname

/-! ### The order of the table -/

/-- What is known of the parts of a rule. -/
abbrev Referring (env : Environment) (aliases : Bool) : Account TypeExpr Schema :=
  fun type c schema c' => c.Yields [] schema.references c' ∧ Mentions env aliases type c schema c'

/-- Where open declarations lead to the type expression, its resolution keeps the table in order. -/
def KeepsOrder (env : Environment) (aliases : Bool) : Account TypeExpr Schema :=
  fun type c _ c' => c.Coherent [] → c.Approaches env aliases (.type type) →
    DefinedInOrder (env.OnCycle aliases) c.deps → DefinedInOrder (env.OnCycle aliases) c'.deps

/-- What is known of the parts of a rule, and what is to be shown of the whole. -/
abbrev Ordering (env : Environment) (aliases : Bool) : Account TypeExpr Schema :=
  fun type c schema c' =>
    Referring env aliases type c schema c' ∧ KeepsOrder env aliases type c schema c'

theorem sequence_ordered {types : List TypeExpr} {schemas : List Schema}
    (h : Sequence (Ordering env aliases) types c schemas c') (hc : c.Coherent [])
    (happroaches : ∀ type ∈ types, c.Approaches env aliases (.type type))
    (horder : DefinedInOrder (env.OnCycle aliases) c.deps) :
    DefinedInOrder (env.OnCycle aliases) c'.deps := by
  induction h with
  | nil => exact horder
  | @cons type _ _ _ c middle _ head _ ih =>
      obtain ⟨⟨⟨hextends, hcoherent⟩, -⟩, hkeeps⟩ := head
      apply ih (hcoherent hc).1
      · intro other hother
        exact (happroaches other (List.mem_cons_of_mem type hother)).of_resolving_eq
          hextends.resolving_eq
      · exact hkeeps hc (happroaches type List.mem_cons_self) horder

theorem bodyRule_ordered (h : BodyRule env (Ordering env aliases) first c schema c')
    (hc : c.Coherent []) (happroaches : c.Approaches env aliases (.declaration first))
    (horder : DefinedInOrder (env.OnCycle aliases) c.deps) :
    DefinedInOrder (env.OnCycle aliases) c'.deps := by
  obtain ⟨events, schemas, hparts⟩ := h.parts
  apply sequence_ordered hparts ((yields_note c events).2 hc).1
  · intro type htype
    exact (happroaches.step (.body htype)).of_resolving_eq rfl
  · exact horder

/-- A definition mentions what is defined already, or what is open and leads back to it. -/
theorem mentioned_of_body (named : env.WellNamed) (hfirst : env.IsFirst first)
    (h : BodyRule env (Referring env aliases) first (c.enter first.qualifiedName) schema c')
    (hc : (c.enter first.qualifiedName).Coherent [])
    (happroaches : c.Approaches env aliases (.declaration first)) :
    ∀ used ∈ schema.references,
      used ∈ c'.defined ∨ env.OnCycle aliases first.qualifiedName used := by
  intro used hused
  obtain ⟨hextends, hcoherent⟩ := bodyRule_yields (h.mono fun _ _ _ _ hpart => hpart.1)
  obtain hdefined | hheld | ⟨hopen, -⟩ := (hcoherent hc).2 used hused
  · exact .inl hdefined
  · cases hheld
  -- What is open after the body was open before it, so it leads to the declaration.
  · obtain ⟨part, hpart, declaration, hname, hreaches⟩ :=
      bodyRule_mentions (h.mono fun _ _ _ _ hpart => hpart.2) used hused
    rw [hextends.resolving_eq] at hopen
    obtain ⟨declaration', hfirst', hname', hback⟩ := happroaches.enter hfirst used hopen
    obtain rfl := hfirst'.eq (hreaches.isFirst named) (hname'.trans hname.symm)
    exact .inr ⟨first, declaration', hfirst, hfirst', rfl, hname', .head' (.body hpart) hreaches,
      hback⟩

theorem namedRule_ordered (named : env.WellNamed) (hfirst : env.IsFirst first)
    (h : NamedRule .share first.qualifiedName (BodyRule env (Ordering env aliases) first) c schema
      c') (hc : c.Coherent []) (happroaches : c.Approaches env aliases (.declaration first))
    (horder : DefinedInOrder (env.OnCycle aliases) c.deps) :
    DefinedInOrder (env.OnCycle aliases) c'.deps := by
  cases h with
  | finished _ => exact horder
  | reentered _ _ => exact horder
  | recorded missing fresh resolved _ =>
      have henter := hc.enter (not_mem_of_lookup missing) fresh
      have hafter := bodyRule_ordered resolved henter (happroaches.enter hfirst) horder
      have hmentioned := mentioned_of_body named hfirst
        (resolved.mono fun _ _ _ _ hpart => hpart.1) henter happroaches
      exact hafter.append_singleton hmentioned
  | inlined _ _ _ dropped => simp at dropped

/-- **The order of completion.** A successful resolution in `share` mode adds a definition behind
all that it mentions, except for definitions on a cycle with it. -/
theorem typeWithin_ordered (named : env.WellNamed) {budget : Nat}
    (h : typeWithin env ⟨.share, aliases⟩ budget type c = .ok schema c') :
    KeepsOrder env aliases type c schema c' := by
  have hknown : ∀ {budget type c schema c'},
      typeWithin env ⟨.share, aliases⟩ budget type c = .ok schema c' →
        Referring env aliases type c schema c' :=
    fun hrun => ⟨typeWithin_yields [] hrun, typeWithin_mentions hrun⟩
  refine rule_induction_with hknown ?_ h
  intro type c schema c' hrule hc happroaches horder
  cases hrule.course with
  | parts sequence ends _ =>
      subst ends
      have hmiddle := sequence_ordered sequence hc
        (fun part hpart => happroaches.step (.part hpart)) horder
      exact hmiddle
  | @definition _ _ _ _ _ events _ _ _ found followed inner =>
      apply namedRule_ordered named (named.isFirst found) inner ((yields_note c events).2 hc).1
      · exact (happroaches.step (.definition found followed List.not_mem_nil)).of_resolving_eq rfl
      · exact horder

end Resolve

/-- **Definitions stand before their uses.** In `share` mode every definition mentions definitions
further up in the table only, except for those on a cycle with it. So where no declaration that is
reached reaches itself, there are no exceptions. -/
theorem share_in_order {budget : Nat} {declarations : List Declaration} {aliases : Bool}
    {type : TypeExpr} {model : Model}
    (h : (resolveWithin budget (.ofTable (.ofList declarations)) ⟨.share, aliases⟩ type).1 =
      .ok model) :
    let env : Environment := .ofTable (.ofList declarations)
    DefinedInOrder (env.OnCycle aliases) model.deps ∧
      ((∀ declaration, env.Reaches aliases [] (.type type) (.declaration declaration) →
          ¬ env.IsRecursive aliases declaration) →
        DefinedInOrder (fun _ _ => False) model.deps) := by
  intro env
  have named : env.WellNamed := Environment.wellNamed_ofTable declarations
  obtain ⟨c, hrun, hdeps⟩ := resolveWithin_eq_ok_iff.mp h
  have horder : DefinedInOrder (env.OnCycle aliases) model.deps :=
    hdeps ▸ Resolve.typeWithin_ordered named hrun Context.coherent_empty Context.approaches_empty
      (definedInOrder_nil _)
  refine ⟨horder, fun hacyclic before name schema after hsplit used hused => ?_⟩
  obtain hbefore | ⟨declaration, _, hfirst, -, hname, -, hforth, hback⟩ :=
    horder before name schema after hsplit used hused
  · exact .inl hbefore
  · have hdefined : name ∈ c.defined := by simp [Context.defined, hdeps, hsplit]
    obtain hold | ⟨other, hother, hreaches⟩ :=
      (Resolve.typeWithin_grows named hrun).defined name hdefined
    · cases hold
    · obtain rfl := hfirst.eq (hreaches.isFirst named) (hname.trans hother.symm)
      exact absurd (hforth.trans_left hback) (hacyclic declaration hreaches)

/-- Of two interfaces that refer to each other the inner one is left first, and its definition
mentions the other one too early. Without the cycle the inner one is not an exception. -/
theorem share_in_order_interlinked :
    let type : TypeExpr := .reference none "A" []
    let cyclic := [("B", .object [.member "a" true (.reference "A")]),
      ("A", .object [.member "b" false (.reference "B")])]
    let acyclic := [("B", .object [.member "d" false .string]),
      ("A", .object [.member "b" false (.reference "B"), .member "c" true (.reference "B")])]
    ((resolveWithin 4 (.ofTable (.ofList interlinked)) ⟨.share, false⟩ type).1 =
        .ok ⟨.reference "A", cyclic⟩ ∧
      DefinedInOrder ((Environment.ofTable (.ofList interlinked)).OnCycle false) cyclic) ∧
      (resolveWithin 4 (.ofTable (.ofList layered)) ⟨.share, false⟩ type).1 =
        .ok ⟨.reference "A", acyclic⟩ ∧
      DefinedInOrder (fun _ _ => False) acyclic := by
  intro type cyclic acyclic
  have hcyclic : (resolveWithin 4 (.ofTable (.ofList interlinked)) ⟨.share, false⟩ type).1 =
      .ok ⟨.reference "A", cyclic⟩ := rfl
  have hacyclic : (resolveWithin 4 (.ofTable (.ofList layered)) ⟨.share, false⟩ type).1 =
      .ok ⟨.reference "A", acyclic⟩ := rfl
  have hinlines : (Environment.ofTable (.ofList layered)).Inlines false 2 (.type type) :=
    ⟨_, rfl⟩
  refine ⟨⟨hcyclic, (share_in_order hcyclic).1⟩, hacyclic, (share_in_order hacyclic).2 ?_⟩
  intro declaration hreaches
  obtain ⟨depth, -, hdeclaration⟩ := hinlines.reaches hreaches
  exact hdeclaration.not_isRecursive

end TypeSchema
