import TypeSchema.Proofs.Reachability.Finished
import TypeSchema.Proofs.Translation.Basic

/-!
# Share mode is exact

In `share` mode a reference becomes the name of its declaration whatever the state is, so a result
is the translation of what was resolved, and every definition is the translation of a body. Which
definitions there are follows from reachability alone: only declarations that are reached are
defined, and none that is reached is left out.
-/

namespace TypeSchema

namespace Environment

/-- The type expression with the name of a declaration in place of every reference to it. -/
def shared? (env : Environment) (aliases : Bool) (type : TypeExpr) : Option Schema :=
  env.translate? aliases named? type

/-- The body of a declaration with the name of a declaration in place of every reference to it. -/
def sharedBody? (env : Environment) (aliases : Bool) (declaration : Declaration) : Option Schema :=
  env.translateBody? aliases named? declaration

end Environment

/-- Every definition is the translated body of the first declaration of its name. -/
def Context.Exact (env : Environment) (aliases : Bool) (c : Context) : Prop :=
  ∀ name schema, (name, schema) ∈ c.deps → ∃ declaration : Declaration, env.IsFirst declaration ∧
    declaration.qualifiedName = name ∧ env.sharedBody? aliases declaration = some schema

namespace Resolve

variable {env : Environment} {aliases : Bool} {c c' : Context} {schema : Schema} {name : String}
  {first : Declaration} {others : List Declaration} {type : TypeExpr}

/-- The result does not depend on the state. -/
abbrev Shares (env : Environment) (aliases : Bool) : Account TypeExpr Schema :=
  Translates env aliases (pure () : Filter Unit) (fun _ => Environment.named?) fun _ => True

theorem backward_true : Backward fun _ => True :=
  fun _ _ _ _ => trivial

theorem Shares.shared? (h : Shares env aliases type c schema c') :
    env.shared? aliases type = some schema :=
  Filter.eventually_pure.mp (h.2 trivial)

theorem bodyRule_shares (h : BodyRule env (Shares env aliases) first c schema c') :
    env.sharedBody? aliases first = some schema :=
  Filter.eventually_pure.mp (bodyRule_translates backward_true h trivial)

theorem namedRule_shares {run : Context → Schema → Context → Prop}
    (h : NamedRule .share name run c schema c') : schema = .reference name := by
  cases h with
  | finished _ | reentered _ _ | recorded _ _ _ _ => rfl
  | inlined _ _ _ dropped => simp at dropped

theorem typeWithin_shares {budget : Nat}
    (h : typeWithin env ⟨.share, aliases⟩ budget type c = .ok schema c') :
    Shares env aliases type c schema c' := by
  refine typeWithin_translates backward_true ?_ h
  intro name first others c schema c' _ hnamed _
  rw [namedRule_shares hnamed]
  exact .of_forall fun _ => rfl

theorem sequence_exact {types : List TypeExpr} {schemas : List Schema}
    (h : Sequence (fun _ c _ c' => c.Exact env aliases → c'.Exact env aliases) types c schemas c')
    (hc : c.Exact env aliases) : c'.Exact env aliases := by
  induction h with
  | nil => exact hc
  | cons head _ ih => exact ih (head hc)

theorem namedRule_exact (hfirst : env.IsFirst first) {mode : ReferenceMode}
    {run : Context → Schema → Context → Prop}
    (hrun : ∀ c schema c', run c schema c' → env.sharedBody? aliases first = some schema ∧
      (c.Exact env aliases → c'.Exact env aliases))
    (h : NamedRule mode first.qualifiedName run c schema c') (hc : c.Exact env aliases) :
    c'.Exact env aliases := by
  cases h with
  | finished _ => exact hc
  | reentered _ _ => exact hc
  | recorded _ _ resolved _ =>
      obtain ⟨hbody, hafter⟩ := hrun _ _ _ resolved
      intro name schema hentry
      obtain hentry | hentry := List.mem_append.mp hentry
      · exact hafter hc name schema hentry
      · obtain ⟨rfl, rfl⟩ := Prod.mk.inj (List.mem_singleton.mp hentry)
        exact ⟨first, hfirst, rfl, hbody⟩
  | inlined _ _ resolved _ => exact (hrun _ _ _ resolved).2 hc

/-- **Definitions are translated bodies.** Every successful resolution in `share` mode adds
translated bodies only. -/
theorem typeWithin_exact (named : env.WellNamed) {budget : Nat}
    (h : typeWithin env ⟨.share, aliases⟩ budget type c = .ok schema c')
    (hc : c.Exact env aliases) : c'.Exact env aliases := by
  refine rule_induction_with (P := fun _ c _ c' => c.Exact env aliases → c'.Exact env aliases)
    typeWithin_shares ?_ h hc
  intro type c schema c' hrule hc
  cases hrule.course with
  | parts sequence ends _ =>
      subst ends
      have hparts := sequence_exact (sequence.mono fun _ _ _ _ hpart => hpart.2) hc
      exact hparts
  | definition found _ inner =>
      refine namedRule_exact (named.isFirst found) ?_ inner hc
      intro c schema c' hbody
      refine ⟨bodyRule_shares (hbody.mono fun _ _ _ _ hpart => hpart.1), fun hc => ?_⟩
      obtain ⟨events, schemas, hparts⟩ := hbody.parts
      exact sequence_exact (hparts.mono fun _ _ _ _ hpart => hpart.2) hc

end Resolve

/-- **Share mode is exact.** The root is the translated type expression. The definitions have
different names, which are those of the declarations that the type expression reaches, and the
definition of such a declaration is its translated body. -/
theorem share_exact {budget : Nat} {declarations : List Declaration} {aliases : Bool}
    {type : TypeExpr} {model : Model}
    (h : (resolveWithin budget (.ofTable (.ofList declarations)) ⟨.share, aliases⟩ type).1 =
      .ok model) :
    let env : Environment := .ofTable (.ofList declarations)
    env.shared? aliases type = some model.root ∧
      model.defined.Nodup ∧
      (∀ name, name ∈ model.defined ↔ env.LeadsTo aliases [] (.type type) name) ∧
      ∀ declaration, env.Reaches aliases [] (.type type) (.declaration declaration) →
        ∃ schema, env.sharedBody? aliases declaration = some schema ∧
          (declaration.qualifiedName, schema) ∈ model.deps := by
  intro env
  have named : env.WellNamed := Environment.wellNamed_ofTable declarations
  obtain ⟨c, hrun, hdeps⟩ := resolveWithin_eq_ok_iff.mp h
  have hdefined : c.defined = model.defined := by rw [Context.defined, Model.defined, hdeps]
  have hexact : c.Exact env aliases :=
    Resolve.typeWithin_exact named hrun fun _ _ hentry => by cases hentry
  have hgrows := Resolve.typeWithin_grows named hrun
  have hopen : c.resolving = [] := hgrows.resolving_eq
  obtain ⟨-, hfinishes⟩ := Resolve.typeWithin_completes named hrun Context.complete_empty
  have hreached : ∀ declaration, env.Reaches aliases [] (.type type) (.declaration declaration) →
      declaration.qualifiedName ∈ c.defined :=
    fun declaration hreaches => (hfinishes _ (hopen ▸ hreaches)).2 declaration rfl
  refine ⟨(Resolve.typeWithin_shares hrun).shared?, (resolveWithin_coherent h).1, ?_, ?_⟩
  · intro name
    rw [← hdefined]
    constructor
    · exact fun hname => (hgrows.defined name hname).resolve_left (by simp [Context.defined])
    · rintro ⟨declaration, rfl, hreaches⟩
      exact hreached declaration hreaches
  · intro declaration hreaches
    obtain ⟨⟨name, schema⟩, hentry, hname⟩ := List.mem_map.mp (hreached declaration hreaches)
    obtain ⟨other, hother, hsame, hbody⟩ := hexact name schema hentry
    obtain rfl := hother.eq (hreaches.isFirst named) (hsame.trans hname)
    exact ⟨schema, hbody, hsame ▸ hdeps ▸ hentry⟩

/-- Of two interfaces that refer to each other both are reached, and the inner one is left first. -/
theorem share_exact_interlinked :
    let env : Environment := .ofTable (.ofList interlinked)
    let type : TypeExpr := .reference none "A" []
    let model : Model := ⟨.reference "A",
      [("B", .object [.member "a" true (.reference "A")]),
        ("A", .object [.member "b" false (.reference "B")])]⟩
    (resolveWithin 4 env ⟨.share, false⟩ type).1 = .ok model ∧
      ∀ name, name ∈ model.defined ↔ env.LeadsTo false [] (.type type) name :=
  have h : (resolveWithin 4 (.ofTable (.ofList interlinked)) ⟨.share, false⟩
    (.reference none "A" [])).1 = .ok ⟨_, _⟩ := rfl
  ⟨h, (share_exact h).2.2.1⟩

end TypeSchema
