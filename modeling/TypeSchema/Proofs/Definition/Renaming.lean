import Mathlib.Data.Finset.Card
import TypeSchema.Proofs.Definition.Occurrence

/-!
# Where references lead

A reference is followed by putting the definition of its name in its place, and that may be a
reference again. A definition is one only where a type alias is nothing but another name for a
declaration, so a chain of references goes along the names that aliases give to each other in the
source. A chain that is longer than the table comes back to a name, and has entered a cycle of such
aliases. From a cycle nothing leads to anything but references: every alias of it has one successor,
so renaming never ends there, and where the schema of a declaration is no reference it does end.
-/

namespace TypeSchema

open Relation

namespace Schema

def isReference : Schema → Bool
  | .reference _ => true
  | _ => false

variable {schema : Schema}

theorem exists_of_isReference (h : schema.isReference) : ∃ name, schema = .reference name := by
  cases schema with
  | reference name => exact ⟨name, rfl⟩
  | _ => cases h

theorem not_isReference_of_isLeaf (h : schema.isLeaf) : schema.isReference = false := by
  cases schema <;> first | rfl | cases h

end Schema

/-- What a number of steps from references to their definitions leads to. Only references can be
followed. -/
def Model.follow? (model : Model) : Nat → Schema → Option Schema
  | 0, schema => some schema
  | steps + 1, .reference name => (model.deps.lookup name).bind (model.follow? steps)
  | _ + 1, _ => none

/-! ### Aliases that rename -/

/-- The type expression is a reference to the name, possibly in parentheses. -/
inductive TypeExpr.RefersTo : TypeExpr → String → Prop
  | reference {location : Option Location} {name : String} {arguments : List TypeExpr} :
      RefersTo (.reference location name arguments) name
  | parenthesized {location : Option Location} {inner : TypeExpr} {name : String}
      (refers : inner.RefersTo name) : RefersTo (.parenthesized location inner) name

theorem TypeExpr.RefersTo.unique {type : TypeExpr} {name other : String} (h : type.RefersTo name)
    (h' : type.RefersTo other) : name = other := by
  induction h with
  | reference =>
      cases h'
      rfl
  | parenthesized _ ih =>
      cases h' with
      | parenthesized refers => exact ih refers

namespace Environment

/-- The first declaration is a type alias whose type is a reference to the second one. -/
inductive Renames (env : Environment) : Declaration → Declaration → Prop
  | typeAlias {location : Option Location} {name other : String} {type : TypeExpr}
      {target : Declaration} {others : List Declaration} (refers : type.RefersTo other)
      (found : env.declarations other = target :: others) :
      Renames env (.typeAlias location name type) target

/-- The name is that of a type alias on a cycle of aliases, each of which renames the next one. -/
def IsCircular (env : Environment) (name : String) : Prop :=
  ∃ declaration : Declaration, env.IsFirst declaration ∧ declaration.qualifiedName = name ∧
    TransGen env.Renames declaration declaration

/-- Renaming comes to an end, at a declaration that renames nothing. -/
def IsGrounded (env : Environment) (declaration : Declaration) : Prop :=
  ∃ ground, ReflTransGen env.Renames declaration ground ∧ ∀ target, ¬ env.Renames ground target

variable {env : Environment} {declaration middle target : Declaration}

theorem Renames.unique (h : env.Renames declaration middle) (h' : env.Renames declaration target) :
    middle = target := by
  cases h with
  | typeAlias refers found =>
      cases h' with
      | typeAlias refers' found' =>
          obtain rfl := refers.unique refers'
          exact (List.cons.inj (found.symm.trans found')).1

theorem IsGrounded.of_not_renames (h : ∀ target, ¬ env.Renames declaration target) :
    env.IsGrounded declaration :=
  ⟨declaration, .refl, h⟩

theorem IsGrounded.head (h : env.Renames declaration target) (hgrounded : env.IsGrounded target) :
    env.IsGrounded declaration := by
  obtain ⟨ground, hpath, hend⟩ := hgrounded
  exact ⟨ground, .head h hpath, hend⟩

/-- The only way on from an alias on a cycle stays on the cycle. -/
theorem Renames.cycle (h : env.Renames declaration target)
    (hcycle : TransGen env.Renames declaration declaration) :
    TransGen env.Renames target target := by
  obtain ⟨next, hnext, hback⟩ := TransGen.head'_iff.mp hcycle
  obtain rfl := h.unique hnext
  exact .tail' hback hnext

theorem cycle_of_transGen (h : TransGen env.Renames declaration target)
    (hcycle : TransGen env.Renames declaration declaration) :
    TransGen env.Renames target target := by
  induction h with
  | single step => exact step.cycle hcycle
  | tail _ step ih => exact step.cycle ih

theorem IsGrounded.not_cycle (h : env.IsGrounded declaration) :
    ¬ TransGen env.Renames declaration declaration := by
  obtain ⟨ground, hpath, hend⟩ := h
  intro hcycle
  obtain rfl | hpath := reflTransGen_iff_eq_or_transGen.mp hpath
  · obtain ⟨next, hnext, -⟩ := TransGen.head'_iff.mp hcycle
    exact hend next hnext
  · obtain ⟨next, hnext, -⟩ := TransGen.head'_iff.mp (cycle_of_transGen hpath hcycle)
    exact hend next hnext

/-! ### What the schema of a declaration tells about its renaming -/

/-- The schema is no reference and renaming comes to an end, or it is the name of a declaration
that is further on. -/
inductive Renders (env : Environment) (onward : Declaration → Declaration → Prop)
    (declaration : Declaration) : Schema → Prop
  | shape {schema : Schema} (shaped : schema.isReference = false)
      (grounded : env.IsGrounded declaration) : Renders env onward declaration schema
  | reference {target : Declaration} (isFirst : env.IsFirst target)
      (leads : onward declaration target) :
      Renders env onward declaration (.reference target.qualifiedName)

/-- The same of a type expression: its schema is a reference only if the type expression is one. -/
inductive RendersType (env : Environment) (type : TypeExpr) : Schema → Prop
  | shape {schema : Schema} (plain : ∀ name, ¬ type.RefersTo name)
      (shaped : schema.isReference = false) : RendersType env type schema
  | reference {name : String} {target : Declaration} {others : List Declaration} {schema : Schema}
      (refers : type.RefersTo name) (found : env.declarations name = target :: others)
      (rendered : Renders env (ReflTransGen env.Renames) target schema) :
      RendersType env type schema

variable {schema : Schema} {type : TypeExpr}

theorem Renders.weaken (h : Renders env (TransGen env.Renames) declaration schema) :
    Renders env (ReflTransGen env.Renames) declaration schema := by
  cases h with
  | shape shaped grounded => exact .shape shaped grounded
  | reference isFirst leads => exact .reference isFirst leads.to_reflTransGen

theorem Renders.occurrence {mode : ReferenceMode} (hfirst : env.IsFirst declaration)
    (h : Renders env (TransGen env.Renames) declaration schema) :
    Renders env (ReflTransGen env.Renames) declaration
      (mode.occurrence declaration.qualifiedName schema) := by
  cases mode with
  | expand => exact h.weaken
  | share => exact .reference hfirst .refl

theorem RendersType.parenthesized {location : Option Location} (h : RendersType env type schema) :
    RendersType env (.parenthesized location type) schema := by
  cases h with
  | shape plain shaped =>
      refine .shape ?_ shaped
      rintro name (_ | refers)
      exact plain name refers
  | reference refers found rendered => exact .reference (.parenthesized refers) found rendered

/-- A type alias is as far as its type, and one step further if that is a reference. -/
theorem RendersType.typeAlias {location : Option Location} {name : String}
    (h : RendersType env type schema) :
    Renders env (TransGen env.Renames) (.typeAlias location name type) schema := by
  cases h with
  | shape plain shaped =>
      refine .shape shaped (.of_not_renames ?_)
      rintro target ⟨refers, -⟩
      exact plain _ refers
  | @reference _ target _ _ refers found rendered =>
      have hstep : env.Renames (.typeAlias location name type) target := .typeAlias refers found
      cases rendered with
      | shape shaped grounded => exact .shape shaped (grounded.head hstep)
      | reference isFirst leads => exact .reference isFirst (.head' hstep leads)

end Environment

/-- Every definition is the schema of a declaration that references go on into. -/
def RendersAll (env : Environment) (aliases : Bool) (deps : List (String × Schema)) : Prop :=
  ∀ entry ∈ deps, ∃ declaration : Declaration, env.IsFirst declaration ∧
    declaration.qualifiedName = entry.1 ∧ declaration.isFollowed aliases ∧
      env.Renders (TransGen env.Renames) declaration entry.2

theorem RendersAll.append_singleton {env : Environment} {aliases : Bool}
    {deps : List (String × Schema)} {declaration : Declaration} {schema : Schema}
    (h : RendersAll env aliases deps) (hfirst : env.IsFirst declaration)
    (followed : declaration.isFollowed aliases)
    (rendered : env.Renders (TransGen env.Renames) declaration schema) :
    RendersAll env aliases (deps ++ [(declaration.qualifiedName, schema)]) := by
  intro entry hentry
  obtain hentry | hentry := List.mem_append.mp hentry
  · exact h entry hentry
  · obtain rfl := List.mem_singleton.mp hentry
    exact ⟨declaration, hfirst, rfl, followed, rendered⟩

namespace Resolve

variable {env : Environment} {policy : Policy} {c c' : Context} {schema : Schema}
  {first : Declaration} {others : List Declaration} {type : TypeExpr}

/-- A resolution keeps what is known of the definitions, and its result is the schema of the type
expression. -/
def KeepsRendering (env : Environment) (aliases : Bool) : Account TypeExpr Schema :=
  fun type c schema c' => RendersAll env aliases c.deps →
    RendersAll env aliases c'.deps ∧ env.RendersType type schema

theorem sequence_keepsRendering {types : List TypeExpr} {schemas : List Schema}
    (h : Sequence (KeepsRendering env policy.aliases) types c schemas c')
    (hc : RendersAll env policy.aliases c.deps) : RendersAll env policy.aliases c'.deps := by
  induction h with
  | nil => exact hc
  | cons head _ ih => exact ih (head hc).1

theorem bodyRule_renders (h : BodyRule env (KeepsRendering env policy.aliases) first c schema c')
    (hc : RendersAll env policy.aliases c.deps) :
    RendersAll env policy.aliases c'.deps ∧ env.Renders (TransGen env.Renames) first schema := by
  cases h with
  | enum _ =>
      refine ⟨hc, .shape rfl (.of_not_renames ?_)⟩
      rintro target ⟨⟩
  | interface contents =>
      obtain ⟨inner, hparts, -⟩ := contents.parts
      refine ⟨sequence_keepsRendering hparts hc, .shape rfl (.of_not_renames ?_)⟩
      rintro target ⟨⟩
  | typeAlias aliased => exact (aliased hc).imp_right fun rendered => rendered.typeAlias

theorem namedRule_renders (named : env.WellNamed) {name : String}
    (found : env.declarations name = first :: others) (followed : first.isFollowed policy.aliases)
    (h : NamedRule policy.mode first.qualifiedName
      (BodyRule env (KeepsRendering env policy.aliases) first) c schema c')
    (hc : RendersAll env policy.aliases c.deps) :
    RendersAll env policy.aliases c'.deps ∧
      env.Renders (ReflTransGen env.Renames) first schema := by
  have hfirst : env.IsFirst first := named.isFirst found
  cases h with
  | finished hlookup =>
      obtain ⟨declaration, hdeclaration, hname, -, rendered⟩ := hc _ (mem_of_lookup hlookup)
      obtain rfl := hdeclaration.eq hfirst hname
      exact ⟨hc, rendered.occurrence hfirst⟩
  | reentered _ _ => exact ⟨hc, .reference hfirst .refl⟩
  | recorded _ _ resolved _ =>
      obtain ⟨hafter, rendered⟩ := bodyRule_renders resolved hc
      exact ⟨hafter.append_singleton hfirst followed rendered, rendered.occurrence hfirst⟩
  | inlined _ _ resolved _ =>
      exact (bodyRule_renders resolved hc).imp_right fun rendered => rendered.weaken

/-- **Schemas follow the renaming.** A schema that a successful resolution ends with is a reference
only where the type expression renames a declaration, and then it names one that is further on. -/
theorem typeWithin_renders (named : env.WellNamed) {budget : Nat}
    (h : typeWithin env policy budget type c = .ok schema c') :
    KeepsRendering env policy.aliases type c schema c' := by
  refine rule_induction (P := KeepsRendering env policy.aliases) ?_ h
  intro type c schema c' hrule hc
  have hshape : ∀ {type : TypeExpr} {schema : Schema}, (∀ name, ¬ type.RefersTo name) →
      schema.isReference = false → RendersAll env policy.aliases c'.deps →
        RendersAll env policy.aliases c'.deps ∧ env.RendersType type schema :=
    fun plain shaped hc' => ⟨hc', .shape plain shaped⟩
  cases hrule with
  | keyword meaning =>
      exact hshape (by rintro name ⟨⟩)
        (Schema.not_isReference_of_isLeaf (Keyword.isLeaf_of_schema? meaning)) hc
  | literal meaning =>
      exact hshape (by rintro name ⟨⟩)
        (Schema.not_isReference_of_isLeaf (Environment.isLeaf_of_literalSchema? meaning)) hc
  | array inner => exact hshape (by rintro name ⟨⟩) rfl (inner hc).1
  | union inner | intersection inner | tuple inner =>
      exact hshape (by rintro name ⟨⟩) rfl (sequence_keepsRendering inner hc)
  | object inner =>
      obtain ⟨schemas, hparts, -⟩ := inner.parts
      exact hshape (by rintro name ⟨⟩) rfl (sequence_keepsRendering hparts hc)
  | parenthesized inner => exact (inner hc).imp_right fun rendered => rendered.parenthesized
  | reference inner =>
      cases inner with
      | member found value ends =>
          obtain ⟨text, value, -, -, rfl⟩ := Environment.memberSchema?_eq_some_iff.mp value
          subst ends
          refine ⟨hc, .reference .reference found (.shape rfl (.of_not_renames ?_))⟩
          rintro target ⟨⟩
      | definition found followed inner =>
          exact (namedRule_renders named found followed inner hc).imp_right
            fun rendered => .reference .reference found rendered

end Resolve

/-! ### Chains of references -/

namespace Model

variable {model : Model} {name other : String} {schema : Schema} {steps more : Nat}

theorem follow?_add :
    model.follow? (steps + more) schema =
      (model.follow? steps schema).bind (model.follow? more) := by
  induction steps generalizing schema with
  | zero => simp [follow?]
  | succ steps ih =>
      rw [Nat.succ_add]
      cases schema with
      | reference name =>
          simp only [follow?, Option.bind_assoc]
          exact congrArg _ (funext fun _ => ih)
      | _ => rfl

/-- Following the reference comes to an alias on a cycle of aliases that rename each other. -/
def EntersCycle (model : Model) (env : Environment) (name : String) : Prop :=
  ∃ steps other, model.follow? steps (.reference name) = some (.reference other) ∧
    env.IsCircular other

/-- The references of the table lead from name to name along the renaming. -/
structure Charted (model : Model) (env : Environment) (aliases : Bool) : Prop where
  closed : model.Closed
  rendered : RendersAll env aliases model.deps

namespace Charted

variable {env : Environment} {aliases : Bool}

/-- One step from a defined name. -/
theorem step (h : model.Charted env aliases) (hname : name ∈ model.defined) :
    ∃ (declaration : Declaration) (schema : Schema), env.IsFirst declaration ∧
      declaration.qualifiedName = name ∧ declaration.isFollowed aliases ∧
      model.follow? 1 (.reference name) = some schema ∧
      env.Renders (TransGen env.Renames) declaration schema ∧
      ∀ other, schema = .reference other → other ∈ model.defined := by
  cases hlookup : model.deps.lookup name with
  | none => exact absurd hname (not_mem_of_lookup hlookup)
  | some schema =>
      have hentry := mem_of_lookup hlookup
      obtain ⟨declaration, hfirst, hdeclaration, followed, rendered⟩ := h.rendered _ hentry
      refine ⟨declaration, schema, hfirst, hdeclaration, followed, ?_, rendered, ?_⟩
      · simp [follow?, hlookup]
      · rintro other rfl
        exact h.closed.2 _ hentry other (List.mem_singleton_self other)

/-- As long as a chain has only met references, it goes along the renaming. -/
theorem renames (h : model.Charted env aliases) (hname : name ∈ model.defined)
    (hfollow : model.follow? (steps + 1) (.reference name) = some (.reference other)) :
    other ∈ model.defined ∧ ∃ declaration target : Declaration, env.IsFirst declaration ∧
      declaration.qualifiedName = name ∧ env.IsFirst target ∧ target.qualifiedName = other ∧
        TransGen env.Renames declaration target := by
  induction steps generalizing name with
  | zero =>
      obtain ⟨declaration, schema, hfirst, hdeclaration, -, hschema, rendered, hknown⟩ :=
        h.step hname
      obtain rfl := Option.some.inj (hschema.symm.trans hfollow)
      refine ⟨hknown other rfl, ?_⟩
      cases rendered with
      | shape shaped _ => cases shaped
      | reference isFirst leads => exact ⟨declaration, _, hfirst, hdeclaration, isFirst, rfl, leads⟩
  | succ steps ih =>
      obtain ⟨declaration, schema, hfirst, hdeclaration, -, hschema, rendered, hknown⟩ :=
        h.step hname
      rw [Nat.add_comm, follow?_add, hschema, Option.bind_some] at hfollow
      cases rendered with
      | shape shaped _ =>
          cases schema with
          | reference _ => cases shaped
          | _ => cases hfollow
      | reference isFirst leads =>
          obtain ⟨hother, middle, target, hmiddle, hsame, htarget, hend, hrest⟩ :=
            ih (hknown _ rfl) hfollow
          obtain rfl := hmiddle.eq isFirst hsame
          exact ⟨hother, declaration, target, hfirst, hdeclaration, htarget, hend,
            leads.trans hrest⟩

/-- On a cycle one step leads to a name on a cycle. -/
theorem step_of_isCircular (h : model.Charted env aliases) (hname : name ∈ model.defined)
    (hcircular : env.IsCircular name) :
    ∃ other ∈ model.defined, model.follow? 1 (.reference name) = some (.reference other) ∧
      env.IsCircular other := by
  obtain ⟨declaration, schema, hfirst, hdeclaration, -, hschema, rendered, hknown⟩ := h.step hname
  obtain ⟨circular, hfirst', hcircular', hcycle⟩ := hcircular
  obtain rfl := hfirst'.eq hfirst (hcircular'.trans hdeclaration.symm)
  cases rendered with
  | shape _ grounded => exact absurd hcycle grounded.not_cycle
  | reference isFirst leads =>
      exact ⟨_, hknown _ rfl, hschema, _, isFirst, rfl, Environment.cycle_of_transGen leads hcycle⟩

theorem follow_of_isCircular (h : model.Charted env aliases) (hname : name ∈ model.defined)
    (hcircular : env.IsCircular name) (steps : Nat) :
    ∃ other, model.follow? steps (.reference name) = some (.reference other) := by
  induction steps generalizing name with
  | zero => exact ⟨name, rfl⟩
  | succ steps ih =>
      obtain ⟨other, hother, hstep, hnext⟩ := h.step_of_isCircular hname hcircular
      rw [Nat.add_comm, follow?_add, hstep]
      exact ih hother hnext

/-- A chain that enters a cycle consists of references. -/
theorem follow_of_entersCycle (h : model.Charted env aliases) (hname : name ∈ model.defined)
    (henters : model.EntersCycle env name) (steps : Nat) :
    ∃ other, model.follow? steps (.reference name) = some (.reference other) := by
  obtain ⟨before, circular, hbefore, hcircular⟩ := henters
  have hdefined : circular ∈ model.defined := by
    cases before with
    | zero =>
        cases hbefore
        exact hname
    | succ before => exact (h.renames hname hbefore).1
  obtain hle | hlt := Nat.le_total before steps
  · obtain ⟨more, rfl⟩ := Nat.exists_eq_add_of_le hle
    rw [follow?_add, hbefore]
    exact h.follow_of_isCircular hdefined hcircular more
  -- what comes before the cycle can be followed, so it is a reference as well
  · obtain ⟨more, rfl⟩ := Nat.exists_eq_add_of_le hlt
    rw [follow?_add] at hbefore
    obtain ⟨schema, hschema, hrest⟩ := Option.bind_eq_some_iff.mp hbefore
    cases schema with
    | reference other => exact ⟨other, hschema⟩
    | _ =>
        cases more with
        | zero => cases hrest
        | succ more => cases hrest

/-- A chain of references that is longer than the table enters a cycle. -/
theorem entersCycle_of_long (h : model.Charted env aliases) (hname : name ∈ model.defined)
    (hlong : ∀ steps ≤ model.deps.length,
      ∃ other, model.follow? steps (.reference name) = some (.reference other)) :
    model.EntersCycle env name := by
  choose! visited hvisited using hlong
  have hdefined : ∀ steps ∈ Finset.range (model.deps.length + 1),
      visited steps ∈ model.defined.toFinset := by
    intro steps hsteps
    rw [List.mem_toFinset]
    have hfollow := hvisited steps (Nat.lt_succ_iff.mp (Finset.mem_range.mp hsteps))
    cases steps with
    | zero =>
        cases hfollow
        exact hname
    | succ steps => exact (h.renames hname hfollow).1
  have hcard : model.defined.toFinset.card < (Finset.range (model.deps.length + 1)).card := by
    rw [Finset.card_range, Nat.lt_succ_iff]
    exact (List.toFinset_card_le _).trans (List.length_map _).le
  obtain ⟨i, hi, j, hj, hne, hsame⟩ :=
    Finset.exists_ne_map_eq_of_card_lt_of_maps_to hcard hdefined
  wlog hlt : i < j generalizing i j
  · exact this j hj i hi hne.symm hsame.symm (by omega)
  -- from one visit to the next one
  obtain ⟨more, rfl⟩ := Nat.exists_eq_add_of_lt hlt
  have hfirst := hvisited i (Nat.lt_succ_iff.mp (Finset.mem_range.mp hi))
  have hagain := hvisited _ (Nat.lt_succ_iff.mp (Finset.mem_range.mp hj))
  rw [← hsame, Nat.add_assoc, follow?_add, hfirst, Option.bind_some] at hagain
  obtain ⟨-, declaration, target, hdeclaration, hstart, htarget, hend, hpath⟩ :=
    h.renames (List.mem_toFinset.mp (hdefined i hi)) hagain
  obtain rfl := hdeclaration.eq htarget (hstart.trans hend.symm)
  exact ⟨i, visited i, hfirst, declaration, hdeclaration, hstart, hpath⟩

/-- A chain that enters no cycle comes to its end within the table. -/
theorem settles (h : model.Charted env aliases) (hname : name ∈ model.defined)
    (houtside : ¬ model.EntersCycle env name) :
    ∃ steps ≤ model.deps.length, ∃ schema,
      model.follow? steps (.reference name) = some schema ∧ schema.isReference = false := by
  by_contra hnone
  refine houtside (h.entersCycle_of_long hname fun steps hsteps => ?_)
  induction steps with
  | zero => exact ⟨name, rfl⟩
  | succ steps ih =>
      obtain ⟨other, hother⟩ := ih (by omega)
      have hdefined : other ∈ model.defined := by
        cases steps with
        | zero =>
            cases hother
            exact hname
        | succ steps => exact (h.renames hname hother).1
      obtain ⟨-, schema, -, -, -, hschema, -⟩ := h.step hdefined
      have hfollow : model.follow? (steps + 1) (.reference name) = some schema := by
        rw [follow?_add, hother]
        exact hschema
      by_cases href : schema.isReference
      · obtain ⟨next, rfl⟩ := Schema.exists_of_isReference href
        exact ⟨next, hfollow⟩
      · exact absurd ⟨steps + 1, hsteps, schema, hfollow, Bool.eq_false_of_not_eq_true href⟩ hnone

/-- Without type aliases a definition is no reference. -/
theorem settles_at_once (h : model.Charted env false) (hname : name ∈ model.defined) :
    ∃ schema, model.follow? 1 (.reference name) = some schema ∧ schema.isReference = false := by
  obtain ⟨declaration, schema, -, -, followed, hschema, rendered, -⟩ := h.step hname
  refine ⟨schema, hschema, ?_⟩
  cases rendered with
  | shape shaped _ => exact shaped
  | reference _ leads =>
      obtain ⟨next, hnext, -⟩ := TransGen.head'_iff.mp leads
      cases hnext
      cases followed

end Charted

end Model

theorem resolveWithin_charted {budget : Nat} {env : Environment} (named : env.WellNamed)
    {policy : Policy} {type : TypeExpr} {model : Model}
    (h : (resolveWithin budget env policy type).1 = .ok model) :
    model.Charted env policy.aliases := by
  obtain ⟨c, hrun, hdeps⟩ := resolveWithin_eq_ok_iff.mp h
  have hrendered := Resolve.typeWithin_renders named hrun (fun _ hentry => absurd hentry (by simp))
  exact ⟨(resolveWithin_coherent h).2, hdeps ▸ hrendered.1⟩

/-- **References lead to schemas.** Any reference in a model leads to a schema that is no reference
in at most as many steps as there are definitions, and in one step without type aliases. The one
exception is a chain that enters a cycle of type aliases which are nothing but other names for each
other: it never does. -/
theorem reference_settles {budget : Nat} {declarations : List Declaration} {policy : Policy}
    {type : TypeExpr} {model : Model}
    (h : (resolveWithin budget (.ofTable (.ofList declarations)) policy type).1 = .ok model)
    {name : String} {schema : Schema} (hschema : schema ∈ model.schemas)
    (hmentioned : schema.Contains (.reference name)) :
    let env : Environment := .ofTable (.ofList declarations)
    (model.EntersCycle env name → ∀ steps, ∃ other,
        model.follow? steps (.reference name) = some (.reference other)) ∧
      (¬ model.EntersCycle env name → ∃ steps ≤ model.deps.length, ∃ schema,
        model.follow? steps (.reference name) = some schema ∧ schema.isReference = false) ∧
      (policy.aliases = false → ∃ schema,
        model.follow? 1 (.reference name) = some schema ∧ schema.isReference = false) := by
  intro env
  have hcharted := resolveWithin_charted (Environment.wellNamed_ofTable declarations) h
  have hname : name ∈ model.defined := by
    have hreferences := Schema.mem_references_iff.mpr hmentioned
    obtain rfl | hdefinition := List.mem_cons.mp hschema
    · exact hcharted.closed.1 name hreferences
    · obtain ⟨entry, hentry, rfl⟩ := List.mem_map.mp hdefinition
      exact hcharted.closed.2 entry hentry name hreferences
  refine ⟨hcharted.follow_of_entersCycle hname, hcharted.settles hname, fun haliases => ?_⟩
  exact (haliases ▸ hcharted).settles_at_once hname

/-- Two type aliases that are other names for each other, one of them in parentheses. -/
def renamed : List Declaration :=
  [.typeAlias none "L" (.parenthesized none (.reference none "M" [])),
   .typeAlias none "M" (.reference none "L" [])]

/-- The two names lead to each other and nowhere else. Without type aliases the interface that
refers to itself by way of another one is one step away. -/
theorem reference_settles_renamed :
    let circular : Model := ⟨.reference "L", [("M", .reference "L"), ("L", .reference "M")]⟩
    let schema := Schema.object [.member "b" false (.object [.member "a" true (.reference "A")])]
    let settling : Model := ⟨schema, [("A", schema)]⟩
    ((resolveWithin 4 (.ofTable (.ofList renamed)) ⟨.share, true⟩ (.reference none "L" [])).1 =
        .ok circular ∧
      ∀ steps, ∃ other, circular.follow? steps (.reference "L") = some (.reference other)) ∧
      (resolveWithin 8 (.ofTable (.ofList interlinked)) ⟨.expand, false⟩
        (.reference none "A" [])).1 = .ok settling ∧
      ∃ settled, settling.follow? 1 (.reference "A") = some settled ∧
        settled.isReference = false := by
  intro circular schema settling
  have hcircular : (resolveWithin 4 (.ofTable (.ofList renamed)) ⟨.share, true⟩
      (.reference none "L" [])).1 = .ok circular := rfl
  have hsettling : (resolveWithin 8 (.ofTable (.ofList interlinked)) ⟨.expand, false⟩
      (.reference none "A" [])).1 = .ok settling := rfl
  have henters : circular.EntersCycle (.ofTable (.ofList renamed)) "L" := by
    refine ⟨0, "L", rfl, .typeAlias none "L" (.parenthesized none (.reference none "M" [])),
      ⟨[], rfl⟩, rfl, ?_⟩
    exact .head (.typeAlias (.parenthesized .reference) rfl) (.single (.typeAlias .reference rfl))
  have hinside : schema.Contains (.reference "A") :=
    Schema.mem_references_iff.mp (List.mem_singleton_self "A")
  refine ⟨⟨hcircular, (reference_settles hcircular List.mem_cons_self (.here _)).1 henters⟩,
    hsettling, (reference_settles hsettling List.mem_cons_self hinside).2.2 rfl⟩

end TypeSchema
