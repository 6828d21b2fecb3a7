import Mathlib.Data.List.Flatten
import TypeSchema.Proofs.Reachability.Basic
import TypeSchema.Proofs.Resolution.Table

/-!
# Resolution is local

A resolution asks its environment for the declarations of the names that the type expression
mentions, itself or in what it reaches, and for the values of the enum members that these declare.
Environments that agree on that much resolve it alike, from every state and at every depth. In a
table whose names are distinct each name has one declaration and each value one origin, so it does
not matter there in which order the declarations stand or what else is declared.
-/

namespace TypeSchema

/-- The enum members whose values are asked for where a reference goes to the declaration. -/
def Declaration.enumMembers : Declaration → List EnumMember
  | .enum _ _ members => members
  | .enumMember member => [member]
  | .interface _ _ _ _ | .typeAlias _ _ _ | .other _ _ _ | .foreign _ _ _ => []

namespace Environment

/-- A reference to the name stands in the node or in what it reaches. -/
def Mentions (env : Environment) (aliases : Bool) (node : Node) (name : String) : Prop :=
  ∃ location arguments, env.Reaches aliases [] node (.type (.reference location name arguments))

/-- A name has the same declarations in both environments, and their enum members the same
values. -/
structure AgreesOn (env env' : Environment) (name : String) : Prop where
  declarations : env'.declarations name = env.declarations name
  values : ∀ declaration ∈ env.declarations name, ∀ member ∈ declaration.enumMembers,
    env'.evaluateMember member = env.evaluateMember member
  events : ∀ declaration ∈ env.declarations name, ∀ member ∈ declaration.enumMembers,
    env'.memberEvents member = env.memberEvents member

/-- The environments agree on all that the resolution of a node asks for. -/
structure Agrees (env env' : Environment) (aliases : Bool) (node : Node) : Prop where
  literals : env'.evaluateLiteral = env.evaluateLiteral
  names : ∀ name, env.Mentions aliases node name → env.AgreesOn env' name

variable {env env' : Environment} {aliases : Bool} {node node' : Node} {name : String}

theorem Mentions.of_below (step : env.Below aliases [] node node')
    (h : env.Mentions aliases node' name) : env.Mentions aliases node name := by
  obtain ⟨location, arguments, hreaches⟩ := h
  exact ⟨location, arguments, .head step hreaches⟩

theorem mentions_reference {location : Option Location} {arguments : List TypeExpr} :
    env.Mentions aliases (.type (.reference location name arguments)) name :=
  ⟨location, arguments, .refl⟩

theorem Agrees.of_below (h : env.Agrees env' aliases node)
    (step : env.Below aliases [] node node') : env.Agrees env' aliases node' where
  literals := h.literals
  names := fun name hname => h.names name (hname.of_below step)

theorem Agrees.of_reaches (h : env.Agrees env' aliases node)
    (reaches : env.Reaches aliases [] node node') : env.Agrees env' aliases node' := by
  induction reaches with
  | refl => exact h
  | tail _ step ih => exact ih.of_below step

end Environment

/-! ### The rules of resolution -/

namespace Resolve

variable {env env' : Environment} {policy : Policy}

section Parts

variable {α β : Type} {resolve resolve' : TypeExpr → Resolve Schema}

theorem mapM_eq {m : Type → Type} [Monad m] [LawfulMonad m] {f f' : α → m β} {xs : List α}
    (each : ∀ x ∈ xs, f' x = f x) : xs.mapM f' = xs.mapM f := by
  induction xs with
  | nil => rfl
  | cons x xs ih =>
      rw [List.mapM_cons, List.mapM_cons, each x List.mem_cons_self,
        ih fun x hx => each x (List.mem_cons_of_mem _ hx)]

theorem member_eq {member : Member}
    (each : ∀ inner, member.type? = some inner → resolve' inner = resolve inner) :
    Resolve.member resolve' member = Resolve.member resolve member := by
  cases member with
  | property location name type optional =>
      cases type with
      | none => rfl
      | some type => rw [Resolve.member, Resolve.member, each type rfl]
  | index location parameter key type => cases type <;> rfl
  | _ => rfl

theorem members_eq {seen : List String} {members : List Member}
    (each : ∀ inner ∈ members.filterMap Member.type?, resolve' inner = resolve inner) :
    Resolve.members resolve' seen members = Resolve.members resolve seen members := by
  induction members generalizing seen with
  | nil => rfl
  | cons first rest ih =>
      have hfirst : ∀ inner, first.type? = some inner → resolve' inner = resolve inner :=
        fun inner hinner =>
          each inner (List.mem_filterMap.mpr ⟨first, List.mem_cons_self, hinner⟩)
      have hrest : ∀ inner ∈ rest.filterMap Member.type?, resolve' inner = resolve inner := by
        intro inner hinner
        obtain ⟨member, hmember, htype⟩ := List.mem_filterMap.mp hinner
        exact each inner
          (List.mem_filterMap.mpr ⟨member, List.mem_cons_of_mem first hmember, htype⟩)
      rw [Resolve.members, Resolve.members, member_eq hfirst]
      apply bind_congr
      intro entry
      obtain ⟨text, schema⟩ := entry
      dsimp only
      rw [ih hrest]

end Parts

theorem literal_eq (h : env'.evaluateLiteral = env.evaluateLiteral) (type : TypeExpr)
    (expression : Literal) : literal env' type expression = literal env type expression := by
  rw [literal, literal, h]

theorem enumMember_eq {member : EnumMember}
    (hvalue : env'.evaluateMember member = env.evaluateMember member)
    (hevents : env'.memberEvents member = env.memberEvents member) :
    enumMember env' member = enumMember env member := by
  rw [enumMember, enumMember, hvalue, hevents]

variable {resolve resolve' : TypeExpr → Resolve Schema} {body body' : Declaration → Resolve Schema}

/-- The body of a declaration that a name stands for. -/
theorem declaration_eq {name : String} {declaration : Declaration} (h : env.AgreesOn env' name)
    (hmem : declaration ∈ env.declarations name)
    (hparts : ∀ inner ∈ declaration.parts, resolve' inner = resolve inner) :
    Resolve.declaration env' resolve' declaration =
      Resolve.declaration env resolve declaration := by
  cases declaration with
  | enum location enumName members =>
      have hmembers : members.mapM (enumMember env') = members.mapM (enumMember env) :=
        mapM_eq fun member hmember =>
          enumMember_eq (h.values _ hmem member hmember) (h.events _ hmem member hmember)
      rw [Resolve.declaration, Resolve.declaration, hmembers]
  | interface location name members bases =>
      rw [Resolve.declaration, Resolve.declaration, members_eq hparts]
  | typeAlias location name type => exact hparts type (List.mem_singleton_self type)
  | _ => rfl

theorem reference_eq {type : TypeExpr} {name : String} {arguments : List TypeExpr}
    (h : env.AgreesOn env' name)
    (hbody : ∀ first others, env.declarations name = first :: others →
      first.isFollowed policy.aliases → body' first = body first) :
    reference env' policy body' type name arguments =
      reference env policy body type name arguments := by
  unfold reference
  rw [h.declarations]
  apply bind_congr
  intro _
  cases hfound : env.declarations name with
  | nil => rfl
  | cons first others =>
      have hfirst : first ∈ env.declarations name := hfound ▸ List.mem_cons_self
      apply bind_congr
      intro _
      cases first with
      | enumMember member =>
          exact enumMember_eq (h.values _ hfirst member (List.mem_singleton_self member))
            (h.events _ hfirst member (List.mem_singleton_self member))
      | enum _ _ _ | interface _ _ _ _ =>
          dsimp only
          rw [hbody _ _ hfound rfl]
      | typeAlias _ _ _ =>
          by_cases haliases : policy.aliases
          · simp only [if_pos haliases]
            rw [hbody _ _ hfound haliases]
          · simp only [if_neg haliases]
      | other _ _ _ | foreign _ _ _ => rfl

/-- One step is the same when everything inside the type expression is resolved alike, and so are
the bodies of the declarations that it refers to. -/
theorem step_eq {type : TypeExpr} (h : env.Agrees env' policy.aliases (.type type))
    (hparts : ∀ inner ∈ type.parts, resolve' inner = resolve inner)
    (hbody : ∀ name first others, env.Mentions policy.aliases (.type type) name →
      env.declarations name = first :: others → first.isFollowed policy.aliases →
        body' first = body first) :
    step env' policy resolve' body' type = step env policy resolve body type := by
  cases type with
  | literal location expression => exact literal_eq h.literals _ expression
  | array location element =>
      rw [step, step, hparts element (List.mem_singleton_self element)]
  | union location parts | intersection location parts | tuple location parts =>
      have hmap : parts.mapM resolve' = parts.mapM resolve := mapM_eq hparts
      rw [step, step, hmap]
  | parenthesized location inner => exact hparts inner (List.mem_singleton_self inner)
  | object location members => rw [step, step, members_eq hparts]
  | reference location name arguments =>
      have hname : env.Mentions policy.aliases (.type (.reference location name arguments)) name :=
        Environment.mentions_reference
      exact reference_eq (h.names name hname) fun first others => hbody name first others hname
  | _ => rfl

/-- **Environments that agree** on what a type expression mentions resolve it alike, whatever the
state that the resolution starts from. -/
theorem typeWithin_eq_of_agrees (budget : Nat) {type : TypeExpr}
    (h : env.Agrees env' policy.aliases (.type type)) :
    typeWithin env' policy budget type = typeWithin env policy budget type := by
  induction budget generalizing type with
  | zero => rfl
  | succ budget ih =>
      have hparts : ∀ inner ∈ type.parts,
          typeWithin env' policy budget inner = typeWithin env policy budget inner :=
        fun inner hinner => ih (h.of_below (.part hinner))
      apply step_eq h hparts
      intro name first others hname found followed
      obtain ⟨location, arguments, hreaches⟩ := hname
      have hfirst : env.Agrees env' policy.aliases (.declaration first) :=
        (h.of_reaches hreaches).of_below (.definition found followed List.not_mem_nil)
      apply declaration_eq (h.names name ⟨location, arguments, hreaches⟩)
      · rw [found]
        exact List.mem_cons_self
      · intro inner hinner
        exact ih (hfirst.of_below (.body hinner))

end Resolve

theorem resolveWithin_eq_of_agrees {env env' : Environment} {policy : Policy} {type : TypeExpr}
    (budget : Nat) (h : env.Agrees env' policy.aliases (.type type)) :
    resolveWithin budget env' policy type = resolveWithin budget env policy type := by
  rw [resolveWithin, resolveWithin, Resolve.typeWithin_eq_of_agrees budget h]

/-! ### Tables of distinct names -/

namespace DeclarationTable

variable {declarations declarations' : List Declaration} {source declaration : Declaration}
  {name : String}

/-- The names that a list of declarations brings into a table, those of enum members among them. -/
def declaredNames (declarations : List Declaration) : List String :=
  (declarations.flatMap entriesOf).map Prod.fst

/-- The name is bound by a declaration of the list: to that declaration or to a member of that
enum. -/
def Binds (declarations : List Declaration) (name : String) (source declaration : Declaration) :
    Prop :=
  source ∈ declarations ∧ (name, declaration) ∈ entriesOf source

/-- A name is bound in both lists to the same declaration, or to the same member of the same enum,
or in neither. -/
def SameBindings (declarations declarations' : List Declaration) (name : String) : Prop :=
  ∀ source declaration,
    Binds declarations name source declaration ↔ Binds declarations' name source declaration

theorem mem_declaredNames :
    name ∈ declaredNames declarations ↔ ∃ source declaration,
      Binds declarations name source declaration := by
  simp only [declaredNames, List.mem_map, List.mem_flatMap, Binds, Prod.exists]
  constructor
  · rintro ⟨_, declaration, ⟨source, hsource, hentry⟩, rfl⟩
    exact ⟨source, declaration, hsource, hentry⟩
  · rintro ⟨source, declaration, hsource, hentry⟩
    exact ⟨name, declaration, ⟨source, hsource, hentry⟩, rfl⟩

theorem mem_declarations_iff_binds :
    declaration ∈ (ofList declarations).declarations name ↔
      ∃ source, Binds declarations name source declaration := by
  rw [mem_declarations, ofList_entries, List.mem_flatMap]
  rfl

/-- Declarations bring themselves and the members of their enums into a table. -/
theorem mem_or_enumMember_of_mem_declarations
    (mem : declaration ∈ (ofList declarations).declarations name) :
    declaration ∈ declarations ∨ ∃ member, declaration = .enumMember member := by
  obtain ⟨source, hsource, hentry⟩ := mem_declarations_iff_binds.mp mem
  cases source with
  | enum location enumName members =>
      obtain hwhole | hpart := List.mem_cons.mp hentry
      · obtain ⟨-, rfl⟩ := Prod.mk.inj hwhole
        exact .inl hsource
      · obtain ⟨member, -, hsame⟩ := List.mem_map.mp hpart
        exact .inr ⟨member, (Prod.mk.inj hsame).2.symm⟩
  | _ =>
      obtain ⟨-, rfl⟩ := Prod.mk.inj (List.mem_singleton.mp hentry)
      exact .inl hsource

/-- Under distinct names a look-up in the table finds all declarations of a name. -/
theorem declarations_eq_toList (distinct : (declaredNames declarations).Nodup) (name : String) :
    (ofList declarations).declarations name =
      ((ofList declarations).entries.lookup name).toList := by
  rw [declaredNames, ← ofList_entries] at distinct
  exact filterMap_eq_toList_lookup distinct name

theorem map_fst_ofMembers (previous : Option Evaluated) (members : List EnumMember) :
    (Evaluated.ofMembers previous members).map Prod.fst = members := by
  induction members generalizing previous with
  | nil => rfl
  | cons member rest ih => rw [Evaluated.ofMembers, List.map_cons, ih]

/-- Every member of an enum has a value. -/
theorem map_fst_valuesOf_enum (location : Option Location) (name : String)
    (members : List EnumMember) :
    (valuesOf (.enum location name members)).map Prod.fst =
      members.map EnumMember.qualifiedName := by
  conv_rhs => rw [← map_fst_ofMembers none members]
  rw [valuesOf, List.map_map, List.map_map]
  rfl

/-- Values are kept under names that the declaration of their enum brings into the table. -/
theorem map_fst_valuesOf_sublist (declaration : Declaration) :
    ((valuesOf declaration).map Prod.fst).Sublist ((entriesOf declaration).map Prod.fst) := by
  cases declaration with
  | enum location name members =>
      have hentries : (entriesOf (.enum location name members)).map Prod.fst =
          name :: members.map EnumMember.qualifiedName := by
        rw [entriesOf, List.map_cons, List.map_map]
        rfl
      rw [map_fst_valuesOf_enum, hentries]
      exact List.sublist_cons_self name _
  | _ => exact List.nil_sublist _

/-- A value that is kept under a name of its own is found there. -/
theorem value?_eq_some_iff_of_nodup
    (distinct : ((declarations.flatMap valuesOf).map Prod.fst).Nodup) {evaluated : Evaluated} :
    (ofList declarations).value? name = some evaluated ↔
      ∃ source ∈ declarations, (name, evaluated) ∈ valuesOf source := by
  have hreverse : ((declarations.flatMap valuesOf).reverse.map Prod.fst).Nodup := by
    rw [List.map_reverse, List.nodup_reverse]
    exact distinct
  rw [value?, ofList_values, lookup_eq_some_iff_mem hreverse, List.mem_reverse, List.mem_flatMap]

theorem value?_eq_some_iff (distinct : (declaredNames declarations).Nodup)
    {evaluated : Evaluated} :
    (ofList declarations).value? name = some evaluated ↔
      ∃ source ∈ declarations, (name, evaluated) ∈ valuesOf source := by
  have hsublist : ((declarations.flatMap valuesOf).map Prod.fst).Sublist
      (declaredNames declarations) := by
    rw [declaredNames, List.map_flatMap, List.map_flatMap]
    exact List.Sublist.flatMap_right declarations fun source _ => map_fst_valuesOf_sublist source
  exact value?_eq_some_iff_of_nodup (distinct.sublist hsublist)

/-- The value of a name comes from the declaration that binds it. -/
theorem value?_eq_some_iff_of_binds (distinct : (declaredNames declarations).Nodup)
    (binds : Binds declarations name source declaration) {evaluated : Evaluated} :
    (ofList declarations).value? name = some evaluated ↔ (name, evaluated) ∈ valuesOf source := by
  rw [value?_eq_some_iff distinct]
  constructor
  · rintro ⟨other, hother, hvalue⟩
    have hname : name ∈ (entriesOf other).map Prod.fst :=
      (map_fst_valuesOf_sublist other).subset (List.mem_map_of_mem hvalue)
    have hname' : name ∈ (entriesOf source).map Prod.fst := List.mem_map_of_mem binds.2
    rw [declaredNames, List.map_flatMap] at distinct
    obtain rfl := eq_of_mem_flatMap distinct hother binds.1 hname hname'
    exact hvalue
  · intro hvalue
    exact ⟨source, binds.1, hvalue⟩

theorem value?_eq_of_binds (distinct : (declaredNames declarations).Nodup)
    (distinct' : (declaredNames declarations').Nodup)
    (binds : Binds declarations name source declaration)
    (binds' : Binds declarations' name source declaration) :
    (ofList declarations').value? name = (ofList declarations).value? name := by
  apply Option.ext
  intro evaluated
  rw [value?_eq_some_iff_of_binds distinct binds, value?_eq_some_iff_of_binds distinct' binds']

theorem SameBindings.declarations_eq (same : SameBindings declarations declarations' name)
    (distinct : (declaredNames declarations).Nodup)
    (distinct' : (declaredNames declarations').Nodup) :
    (ofList declarations').declarations name = (ofList declarations).declarations name := by
  rw [declarations_eq_toList distinct, declarations_eq_toList distinct']
  congr 1
  apply Option.ext
  intro declaration
  rw [← Option.mem_toList, ← Option.mem_toList, ← declarations_eq_toList distinct,
    ← declarations_eq_toList distinct', mem_declarations_iff_binds, mem_declarations_iff_binds]
  exact exists_congr fun source => (same source declaration).symm

/-- The enum members of a declaration come from where it comes from. -/
theorem Binds.enumMember (binds : Binds declarations name source declaration)
    {member : EnumMember} (hmember : member ∈ declaration.enumMembers) :
    Binds declarations member.qualifiedName source (.enumMember member) := by
  obtain ⟨hsource, hentry⟩ := binds
  refine ⟨hsource, ?_⟩
  cases source with
  | enum location enumName members =>
      obtain hwhole | hpart := List.mem_cons.mp hentry
      · obtain ⟨rfl, rfl⟩ := Prod.mk.inj hwhole
        exact List.mem_cons_of_mem _ (List.mem_map_of_mem hmember)
      · obtain ⟨other, hother, hsame⟩ := List.mem_map.mp hpart
        obtain ⟨-, rfl⟩ := Prod.mk.inj hsame
        obtain rfl := List.mem_singleton.mp hmember
        exact List.mem_cons_of_mem _ (List.mem_map_of_mem hother)
  | enumMember other =>
      obtain ⟨-, rfl⟩ := Prod.mk.inj (List.mem_singleton.mp hentry)
      obtain rfl := List.mem_singleton.mp hmember
      exact List.mem_singleton_self _
  | _ =>
      obtain ⟨-, rfl⟩ := Prod.mk.inj (List.mem_singleton.mp hentry)
      cases hmember

/-- Names that are bound alike have the same declarations with the same values. -/
theorem SameBindings.agreesOn (same : SameBindings declarations declarations' name)
    (distinct : (declaredNames declarations).Nodup)
    (distinct' : (declaredNames declarations').Nodup) :
    (Environment.ofTable (.ofList declarations)).AgreesOn (.ofTable (.ofList declarations'))
      name := by
  have hvalue : ∀ declaration ∈ (ofList declarations).declarations name,
      ∀ member ∈ declaration.enumMembers,
        (ofList declarations').value? member.qualifiedName =
          (ofList declarations).value? member.qualifiedName := by
    intro declaration hdeclaration member hmember
    obtain ⟨source, hbinds⟩ := mem_declarations_iff_binds.mp hdeclaration
    have hbinds' := (same source declaration).mp hbinds
    exact value?_eq_of_binds distinct distinct' (hbinds.enumMember hmember)
      (hbinds'.enumMember hmember)
  refine ⟨same.declarations_eq distinct distinct', ?_, ?_⟩
  · intro declaration hdeclaration member hmember
    change (ofList declarations').evaluateMember member =
      (ofList declarations).evaluateMember member
    rw [evaluateMember, evaluateMember, hvalue declaration hdeclaration member hmember]
  · intro declaration hdeclaration member hmember
    change (ofList declarations').memberEvents member = (ofList declarations).memberEvents member
    rw [memberEvents, memberEvents, hvalue declaration hdeclaration member hmember]

/-! ### Moved, added and removed declarations -/

theorem declaredNames_append (declarations further : List Declaration) :
    declaredNames (declarations ++ further) =
      declaredNames declarations ++ declaredNames further := by
  rw [declaredNames, List.flatMap_append, List.map_append]
  rfl

theorem declaredNames_perm (h : declarations.Perm declarations') :
    (declaredNames declarations).Perm (declaredNames declarations') :=
  (h.flatMap_right entriesOf).map Prod.fst

/-- A name that the further declarations do not bring in is bound as without them, wherever these
stand. -/
theorem sameBindings_of_perm {kept further : List Declaration}
    (h : declarations.Perm (kept ++ further)) (hname : name ∉ declaredNames further) :
    SameBindings kept declarations name := by
  intro source declaration
  constructor
  · rintro ⟨hsource, hentry⟩
    exact ⟨h.mem_iff.mpr (List.mem_append_left further hsource), hentry⟩
  · rintro ⟨hsource, hentry⟩
    obtain hkept | hfurther := List.mem_append.mp (h.mem_iff.mp hsource)
    · exact ⟨hkept, hentry⟩
    · exact absurd (mem_declaredNames.mpr ⟨source, declaration, hfurther, hentry⟩) hname

end DeclarationTable

open DeclarationTable

/-- Where all names that a type expression mentions are bound alike, it is resolved alike. -/
theorem resolveWithin_eq_of_sameBindings {declarations declarations' : List Declaration}
    {policy : Policy} {type : TypeExpr} (budget : Nat)
    (distinct : (declaredNames declarations).Nodup)
    (distinct' : (declaredNames declarations').Nodup)
    (same : ∀ name, (Environment.ofTable (.ofList declarations)).Mentions policy.aliases
      (.type type) name → SameBindings declarations declarations' name) :
    resolveWithin budget (.ofTable (.ofList declarations')) policy type =
      resolveWithin budget (.ofTable (.ofList declarations)) policy type :=
  resolveWithin_eq_of_agrees budget
    ⟨rfl, fun name hname => (same name hname).agreesOn distinct distinct'⟩

/-- **Resolution is local.** Among declarations of distinct names, a type expression has the same
model, the same failure and the same events in every list that binds the names that it mentions
alike. In particular it does not matter in which order declarations stand, nor whether there are
declarations of names that it does not mention. -/
theorem resolution_local (budget : Nat) (policy : Policy) (type : TypeExpr) :
    (∀ declarations declarations' : List Declaration, (declaredNames declarations).Nodup →
      (declaredNames declarations').Nodup →
      (∀ name, (Environment.ofTable (.ofList declarations)).Mentions policy.aliases (.type type)
        name → SameBindings declarations declarations' name) →
      resolveWithin budget (.ofTable (.ofList declarations')) policy type =
        resolveWithin budget (.ofTable (.ofList declarations)) policy type) ∧
    ∀ declarations kept further : List Declaration, (declaredNames declarations).Nodup →
      declarations.Perm (kept ++ further) →
      (∀ name, (Environment.ofTable (.ofList kept)).Mentions policy.aliases (.type type) name →
        name ∉ declaredNames further) →
      resolveWithin budget (.ofTable (.ofList declarations)) policy type =
        resolveWithin budget (.ofTable (.ofList kept)) policy type := by
  constructor
  · intro declarations declarations' distinct distinct' same
    exact resolveWithin_eq_of_sameBindings budget distinct distinct' same
  · intro declarations kept further distinct hperm hunmentioned
    have hnames : (declaredNames kept ++ declaredNames further).Nodup := by
      rw [← declaredNames_append]
      exact (declaredNames_perm hperm).nodup_iff.mp distinct
    apply resolveWithin_eq_of_sameBindings budget (List.Nodup.of_append_left hnames) distinct
    intro name hname
    exact sameBindings_of_perm hperm (hunmentioned name hname)

/-! ### A tree among other declarations -/

/-- A tree whose nodes have a shade, by reference to one member of an enum. -/
def tintedTree : Declaration :=
  .interface none "Tree"
    [.property none ⟨.identifier, "left", none⟩ (some (.reference none "Tree" [])) true,
     .property none ⟨.identifier, "tint", none⟩ (some (.reference none "Shade.Dark" [])) false]
    [⟨none, "Base", []⟩]

def tints : Declaration :=
  .enum none "Shade"
    [⟨none, "Light", "Shade", ⟨.identifier, "Light", none⟩, none⟩,
     ⟨none, "Dark", "Shade", ⟨.identifier, "Dark", none⟩, none⟩]

theorem mentions_tintedTree {declarations : List Declaration} {name : String}
    (tree : (DeclarationTable.ofList declarations).declarations "Tree" = [tintedTree])
    (dark : ∃ member, (DeclarationTable.ofList declarations).declarations "Shade.Dark" =
      [.enumMember member])
    (h : (Environment.ofTable (.ofList declarations)).Mentions false
      (.type (.reference none "Tree" [])) name) : name = "Tree" ∨ name = "Shade.Dark" := by
  obtain ⟨location, arguments, hreaches⟩ := h
  -- The nodes that are reached: the tree, its two references and nothing else.
  have hnodes : ∀ node, (Environment.ofTable (.ofList declarations)).Reaches false []
      (.type (.reference none "Tree" [])) node →
      node = .type (.reference none "Tree" []) ∨ node = .declaration tintedTree ∨
        node = .type (.reference none "Shade.Dark" []) := by
    intro node hnode
    induction hnode with
    | refl => exact .inl rfl
    | tail _ step ih =>
        obtain rfl | rfl | rfl := ih
        · cases step with
          | part mem => cases mem
          | definition found _ _ =>
              obtain ⟨rfl, -⟩ := List.cons.inj (tree.symm.trans found)
              exact .inr (.inl rfl)
        · cases step with
          | body mem =>
              obtain rfl | mem := List.mem_cons.mp mem
              · exact .inl rfl
              · obtain rfl := List.mem_singleton.mp mem
                exact .inr (.inr rfl)
        · cases step with
          | part mem => cases mem
          | definition found followed _ =>
              obtain ⟨member, hmember⟩ := dark
              obtain ⟨rfl, -⟩ := List.cons.inj (hmember.symm.trans found)
              cases followed
  obtain h | h | h := hnodes _ hreaches
  · cases h
    exact .inl rfl
  · cases h
  · cases h
    exact .inr rfl

/-- The base of the tree is not mentioned: it may be an interface, a class or missing, and the other
declarations may stand in any order. -/
theorem resolution_local_tintedTree :
    let base : Declaration := .interface none "Base" [] []
    let other : Declaration := .other none "Base" "ClassDeclaration"
    let type : TypeExpr := .reference none "Tree" []
    let tree : Schema := .object [.member "left" true (.reference "Tree"),
      .member "tint" false (.enumMember "Dark" (.numberLiteral (.ofInt 1)))]
    (resolveWithin 8 (.ofTable (.ofList [tintedTree, tints])) ⟨.expand, false⟩ type).1 =
        .ok ⟨tree, [("Tree", tree)]⟩ ∧
      resolveWithin 8 (.ofTable (.ofList [tints, base, tintedTree])) ⟨.expand, false⟩ type =
        resolveWithin 8 (.ofTable (.ofList [tintedTree, tints])) ⟨.expand, false⟩ type ∧
      resolveWithin 8 (.ofTable (.ofList [other, tintedTree, tints])) ⟨.expand, false⟩ type =
        resolveWithin 8 (.ofTable (.ofList [tints, base, tintedTree])) ⟨.expand, false⟩ type := by
  intro base other type tree
  have hperm : [tints, base, tintedTree].Perm ([tintedTree, tints] ++ [base]) := by
    have h : ([tints, base] ++ [tintedTree]).Perm ([tintedTree] ++ [tints, base]) :=
      List.perm_append_comm
    exact h
  have hperm' : [other, tintedTree, tints].Perm ([tintedTree, tints] ++ [other]) := by
    have h : ([other] ++ [tintedTree, tints]).Perm ([tintedTree, tints] ++ [other]) :=
      List.perm_append_comm
    exact h
  refine ⟨rfl, ?_, ?_⟩
  · apply (resolution_local 8 ⟨.expand, false⟩ type).2 _ _ [base] (by decide) hperm
    intro name hname
    obtain rfl | rfl := mentions_tintedTree rfl ⟨_, rfl⟩ hname <;> decide
  · apply (resolution_local 8 ⟨.expand, false⟩ type).1 _ _ (by decide) (by decide)
    intro name hname source declaration
    have hbase : name ∉ declaredNames [base] ∧ name ∉ declaredNames [other] := by
      obtain rfl | rfl := mentions_tintedTree rfl ⟨_, rfl⟩ hname <;> decide
    have hkept := sameBindings_of_perm hperm hbase.1 source declaration
    have hkept' := sameBindings_of_perm hperm' hbase.2 source declaration
    exact hkept.symm.trans hkept'

end TypeSchema
