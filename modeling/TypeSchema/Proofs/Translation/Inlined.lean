import TypeSchema.Proofs.Translation.Basic

/-!
# Expand mode inlines

A resolution in `expand` mode that defines nothing has met no declaration again, so every reference
was replaced by the body of its declaration: the result is the plain inlining, which knows neither
definitions nor open declarations. Inlining ends only where no declaration reaches itself, since
each body that is gone into costs one level. In the other direction, a name is defined only if its
declaration was met again below itself.
-/

namespace TypeSchema

namespace Environment

/-- The type expression with the bodies of declarations in place of the references to them, down to
the given number of declarations one inside the other. -/
def inlined? (env : Environment) (aliases : Bool) (depth : Nat) (type : TypeExpr) : Option Schema :=
  env.translate? aliases (env.inlinedBody? aliases depth) type

/-- The node can be inlined within the given depth. -/
def Inlines (env : Environment) (aliases : Bool) (depth : Nat) : Node → Prop
  | .type type => ∃ schema, env.inlined? aliases depth type = some schema
  | .declaration declaration => ∃ schema, env.inlinedBody? aliases depth declaration = some schema
  | _ => True

end Environment

/-! ### Inlining goes through everything that is reached -/

section Parts

variable {env : Environment} {aliases : Bool} {definition : Declaration → Option Schema}
  {type inner : TypeExpr} {schema : Schema} {depth : Nat} {node node' : Node}

theorem translateAll?_part {types : List TypeExpr} {schemas : List Schema}
    (h : env.translateAll? aliases definition types = some schemas) (mem : inner ∈ types) :
    ∃ schema, env.translate? aliases definition inner = some schema := by
  induction types generalizing schemas with
  | nil => cases mem
  | cons first rest ih =>
      rw [Environment.translateAll?] at h
      obtain ⟨schema, hfirst, hrest⟩ := Option.bind_eq_some_iff.mp h
      obtain ⟨others, hothers, -⟩ := Option.map_eq_some_iff.mp hrest
      obtain rfl | mem := List.mem_cons.mp mem
      · exact ⟨schema, hfirst⟩
      · exact ih hothers mem

theorem translateMembers?_part {members : List Member} {schemas : List Schema}
    (h : env.translateMembers? aliases definition members = some schemas)
    (mem : inner ∈ members.filterMap Member.type?) :
    ∃ schema, env.translate? aliases definition inner = some schema := by
  induction members generalizing schemas with
  | nil => cases mem
  | cons first rest ih =>
      rw [Environment.translateMembers?] at h
      obtain ⟨schema, hfirst, hrest⟩ := Option.bind_eq_some_iff.mp h
      obtain ⟨others, hothers, -⟩ := Option.map_eq_some_iff.mp hrest
      obtain ⟨member, hmember, htype⟩ := List.mem_filterMap.mp mem
      obtain rfl | hmember := List.mem_cons.mp hmember
      · cases member with
        | property location name type optional =>
            obtain rfl : type = some inner := htype
            rw [Environment.translateMember?] at hfirst
            obtain ⟨text, -, hinner⟩ := Option.bind_eq_some_iff.mp hfirst
            obtain ⟨schema', hschema, -⟩ := Option.map_eq_some_iff.mp hinner
            exact ⟨schema', hschema⟩
        | _ => cases htype
      · exact ih hothers (List.mem_filterMap.mpr ⟨member, hmember, htype⟩)

theorem translate?_part (h : env.translate? aliases definition type = some schema)
    (mem : inner ∈ type.parts) :
    ∃ schema, env.translate? aliases definition inner = some schema := by
  cases type with
  | array location element =>
      obtain rfl := List.mem_singleton.mp mem
      obtain ⟨schema', hschema, -⟩ := Option.map_eq_some_iff.mp h
      exact ⟨schema', hschema⟩
  | parenthesized location element =>
      obtain rfl := List.mem_singleton.mp mem
      exact ⟨schema, h⟩
  | union location types | intersection location types | tuple location types =>
      obtain ⟨schemas, hschemas, -⟩ := Option.map_eq_some_iff.mp h
      exact translateAll?_part hschemas mem
  | object location members =>
      obtain ⟨schemas, hschemas, -⟩ := Option.map_eq_some_iff.mp h
      exact translateMembers?_part hschemas mem
  | _ => cases mem

theorem translateBody?_part {declaration : Declaration}
    (h : env.translateBody? aliases definition declaration = some schema)
    (mem : inner ∈ declaration.parts) :
    ∃ schema, env.translate? aliases definition inner = some schema := by
  cases declaration with
  | interface location name members bases =>
      obtain ⟨schemas, hschemas, -⟩ := Option.map_eq_some_iff.mp h
      exact translateMembers?_part hschemas mem
  | typeAlias location name aliased =>
      obtain rfl := List.mem_singleton.mp mem
      exact ⟨schema, h⟩
  | _ => cases mem

/-- What is one step below can be inlined within the same depth, and below a declaration within one
less. -/
theorem Environment.Inlines.below (h : env.Inlines aliases depth node)
    (hstep : env.Below aliases [] node node') :
    ∃ depth' ≤ depth, env.Inlines aliases depth' node' ∧
      ∀ declaration, node = .declaration declaration → depth' < depth := by
  cases hstep with
  | part mem =>
      obtain ⟨schema, hschema⟩ := h
      exact ⟨depth, Nat.le.refl, translate?_part hschema mem, by simp⟩
  | definition found followed _ =>
      obtain ⟨schema, hschema⟩ := h
      rw [Environment.inlined?, Environment.translate?,
        Resolve.translateReference?_of_followed found followed] at hschema
      exact ⟨depth, Nat.le.refl, ⟨schema, hschema⟩, by simp⟩
  | body mem =>
      obtain ⟨schema, hschema⟩ := h
      cases depth with
      | zero => cases hschema
      | succ depth =>
          exact ⟨depth, Nat.le_succ depth, translateBody?_part hschema mem,
            fun _ _ => Nat.lt_succ_self depth⟩

theorem Environment.Inlines.reaches (h : env.Inlines aliases depth node)
    (hreaches : env.Reaches aliases [] node node') :
    ∃ depth' ≤ depth, env.Inlines aliases depth' node' := by
  induction hreaches with
  | refl => exact ⟨depth, Nat.le.refl, h⟩
  | tail _ hstep ih =>
      obtain ⟨middle, hmiddle, hinlines⟩ := ih
      obtain ⟨depth', hdepth, hinlines', -⟩ := hinlines.below hstep
      exact ⟨depth', Nat.le_trans hdepth hmiddle, hinlines'⟩

/-- A declaration that reaches itself would have to be inlined within less depth than it is. -/
theorem Environment.Inlines.not_isRecursive {declaration : Declaration}
    (h : env.Inlines aliases depth (.declaration declaration)) :
    ¬ env.IsRecursive aliases declaration := by
  intro hrecursive
  induction depth using Nat.strong_induction_on with
  | _ depth ih =>
      obtain ⟨middle, hstep, hrest⟩ := Relation.TransGen.head'_iff.mp hrecursive
      obtain ⟨middleDepth, -, hmiddle, hless⟩ := h.below hstep
      obtain ⟨depth', hdepth, hagain⟩ := hmiddle.reaches hrest
      exact ih depth' (Nat.lt_of_le_of_lt hdepth (hless declaration rfl)) hagain

end Parts

/-! ### Resolutions without definitions inline -/

/-- Nothing is defined, and no declaration was met again. -/
structure Context.Bare (c : Context) : Prop where
  deps_eq : c.deps = []
  recursive_eq : c.recursive = []

namespace Resolve

variable {env : Environment} {aliases : Bool} {c c' : Context} {schema : Schema} {type : TypeExpr}

theorem backward_bare : Backward Context.Bare :=
  fun _ _ hextends hbare =>
    ⟨List.prefix_nil.mp (hbare.deps_eq ▸ hextends.deps_extended),
      List.subset_nil.mp (hbare.recursive_eq ▸ hextends.recursive_subset)⟩

/-- Where nothing was defined and nothing met again, the result is the plain inlining, for every
depth that is large enough. -/
theorem typeWithin_inlines {budget : Nat}
    (h : typeWithin env ⟨.expand, aliases⟩ budget type c = .ok schema c') :
    Translates env aliases Filter.atTop (env.inlinedBody? aliases) Context.Bare type c schema
      c' := by
  refine typeWithin_translates backward_bare ?_ h
  intro name first others c schema c' found hnamed hbare
  cases hnamed with
  | finished hlookup => simp [hbare.deps_eq] at hlookup
  | reentered _ _ =>
      have hmarked := hbare.recursive_eq
      simp at hmarked
  | recorded _ _ _ _ =>
      have hdefined := hbare.deps_eq
      simp at hdefined
  | inlined _ _ resolved _ =>
      obtain ⟨depth, hdepth⟩ := Filter.eventually_atTop.mp
        (bodyRule_translates backward_bare resolved ⟨hbare.deps_eq, hbare.recursive_eq⟩)
      refine Filter.eventually_atTop.mpr ⟨depth + 1, ?_⟩
      rintro (_ | deeper) hdeeper
      · simp at hdeeper
      · exact hdepth deeper (Nat.le_of_succ_le_succ hdeeper)

end Resolve

section Exact

variable {env : Environment} {aliases : Bool} {budget : Nat} {type : TypeExpr} {model : Model}

/-- A model without definitions is the plain inlining. -/
theorem resolveWithin_inlines
    (h : (resolveWithin budget env ⟨.expand, aliases⟩ type).1 = .ok model)
    (hempty : model.deps = []) :
    ∃ depth, ∀ deeper ≥ depth, env.inlined? aliases deeper type = some model.root := by
  obtain ⟨c, hrun, hdeps⟩ := resolveWithin_eq_ok_iff.mp h
  obtain ⟨hextends, hcoherent⟩ := Resolve.typeWithin_yields [] hrun
  have hnone : c.deps = [] := hdeps.trans hempty
  have hunmarked : c.recursive = [] := by
    refine List.eq_nil_iff_forall_not_mem.mpr fun name hname => ?_
    obtain hopen | hdefined := (hcoherent Context.coherent_empty).1.recursive_known name hname
    · simp [hextends.resolving_eq] at hopen
    · simp [Context.defined, hnone] at hdefined
  exact Filter.eventually_atTop.mp ((Resolve.typeWithin_inlines hrun).2 ⟨hnone, hunmarked⟩)

/-- A definition is there because its declaration reaches itself. -/
theorem exists_isRecursive_of_mem_deps (named : env.WellNamed)
    (h : (resolveWithin budget env ⟨.expand, aliases⟩ type).1 = .ok model)
    {entry : String × Schema} (hentry : entry ∈ model.deps) :
    ∃ declaration, env.Reaches aliases [] (.type type) (.declaration declaration) ∧
      env.IsRecursive aliases declaration := by
  obtain ⟨c, hrun, hdeps⟩ := resolveWithin_eq_ok_iff.mp h
  have hgrows := Resolve.typeWithin_grows named hrun
  have hname : entry.1 ∈ c.defined := List.mem_map.mpr ⟨entry, hdeps ▸ hentry, rfl⟩
  have hmarked := (hgrows.forced rfl _ hname).resolve_left (by simp [Context.defined])
  obtain hold | ⟨declaration, -, -, hpath, hwhy⟩ := hgrows.recursive _ hmarked
  · cases hold
  · exact ⟨declaration, hpath.to_reflTransGen, hwhy.resolve_left (by simp)⟩

/-- **Expand mode inlines unless recursion forbids it.** The table of definitions is empty exactly
when no declaration that the type expression reaches does reach itself. Then the root refers to
nothing and is the plain inlining of the type expression. -/
theorem expand_exact {declarations : List Declaration}
    (h : (resolveWithin budget (.ofTable (.ofList declarations)) ⟨.expand, aliases⟩ type).1 =
      .ok model) :
    let env : Environment := .ofTable (.ofList declarations)
    (model.deps = [] ↔
      ∀ declaration, env.Reaches aliases [] (.type type) (.declaration declaration) →
        ¬ env.IsRecursive aliases declaration) ∧
      (model.deps = [] → model.root.references = [] ∧
        ∃ depth, ∀ deeper ≥ depth, env.inlined? aliases deeper type = some model.root) := by
  intro env
  refine ⟨⟨?_, ?_⟩, ?_⟩
  · intro hempty declaration hreaches
    obtain ⟨depth, hdepth⟩ := resolveWithin_inlines h hempty
    have hroot : env.Inlines aliases depth (.type type) := ⟨_, hdepth depth Nat.le.refl⟩
    obtain ⟨depth', -, hdeclaration⟩ := hroot.reaches hreaches
    exact hdeclaration.not_isRecursive
  · intro hacyclic
    refine List.eq_nil_iff_forall_not_mem.mpr fun entry hentry => ?_
    obtain ⟨declaration, hreaches, hrecursive⟩ :=
      exists_isRecursive_of_mem_deps (Environment.wellNamed_ofTable declarations) h hentry
    exact hacyclic declaration hreaches hrecursive
  · intro hempty
    refine ⟨List.eq_nil_iff_forall_not_mem.mpr fun name hname => ?_, resolveWithin_inlines h hempty⟩
    have hdefined := (resolveWithin_coherent h).2.1 name hname
    simp [Model.defined, hempty] at hdefined

end Exact

/-- Two interfaces, the first with two properties of the second's type. -/
def layered : List Declaration :=
  [.interface none "A"
    [.property none ⟨.identifier, "b", none⟩ (some (.reference none "B" [])) false,
     .property none ⟨.identifier, "c", none⟩ (some (.reference none "B" [])) true] [],
   .interface none "B"
    [.property none ⟨.identifier, "d", none⟩ (some (.keyword none .string)) false] []]

/-- The second interface is inlined twice. -/
theorem expand_exact_layered :
    let env : Environment := .ofTable (.ofList layered)
    let type : TypeExpr := .reference none "A" []
    let inner := Schema.object [.member "d" false .string]
    let root := Schema.object [.member "b" false inner, .member "c" true inner]
    (resolveWithin 6 env ⟨.expand, false⟩ type).1 = .ok ⟨root, []⟩ ∧ root.references = [] ∧
      ∃ depth, ∀ deeper ≥ depth, env.inlined? false deeper type = some root :=
  have h : (resolveWithin 6 (.ofTable (.ofList layered)) ⟨.expand, false⟩
    (.reference none "A" [])).1 = .ok ⟨_, []⟩ := rfl
  ⟨h, (expand_exact h).2 rfl⟩

end TypeSchema
