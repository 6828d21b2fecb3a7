import TypeSchema.Proofs.Denotation.Place

/-!
# Resolution in a larger environment

An environment continues another one when declared names keep their first declarations and literals
their meaning. The values of enum members may change. As long as they do not change for the members
that paths from a type expression lead to, the type expression is resolved in the larger environment
as it was before: from a state to the corresponding state, with the same result. Only the record of
events may differ.
-/

namespace TypeSchema

/-- States that differ in the record of events at most. -/
structure Context.Alike (c d : Context) : Prop where
  deps_eq : d.deps = c.deps
  resolving_eq : d.resolving = c.resolving
  recursive_eq : d.recursive = c.recursive

namespace Context.Alike

variable {c d after after' : Context} {name : String} {schema : Schema}

theorem refl (c : Context) : c.Alike c := ⟨rfl, rfl, rfl⟩

theorem note (h : c.Alike d) (events events' : List Event) :
    (c.note events).Alike (d.note events') :=
  ⟨h.deps_eq, h.resolving_eq, h.recursive_eq⟩

theorem enter (h : c.Alike d) : (c.enter name).Alike (d.enter name) := by
  refine ⟨h.deps_eq, ?_, h.recursive_eq⟩
  rw [enter_resolving, enter_resolving, h.resolving_eq]

theorem mark (h : c.Alike d) : (c.mark name).Alike (d.mark name) := by
  refine ⟨h.deps_eq, h.resolving_eq, ?_⟩
  rw [mark_recursive, mark_recursive, h.recursive_eq]

theorem leave (h : c.Alike d) : c.leave.Alike d.leave := by
  refine ⟨h.deps_eq, ?_, h.recursive_eq⟩
  rw [leave_resolving, leave_resolving, h.resolving_eq]

theorem define (h : c.Alike d) : (c.define name schema).Alike (d.define name schema) := by
  refine ⟨?_, h.resolving_eq, h.recursive_eq⟩
  rw [define_deps, define_deps, h.deps_eq]

end Context.Alike

namespace Environment

/-- The second environment keeps the first declarations and the literals of the first one. -/
structure Continues (env env' : Environment) : Prop where
  declarations : ∀ {name first others}, env.declarations name = first :: others →
    ∃ others', env'.declarations name = first :: others'
  literals : env'.evaluateLiteral = env.evaluateLiteral

/-- The members that paths from a place lead to have the same value in both environments. -/
def Keeps (env env' : Environment) (aliases : Bool) (place : Place) : Prop :=
  ∀ path member, (env.graph aliases).Leads place path (.enumMember member) →
    env'.memberSchema? member = env.memberSchema? member

variable {env env' : Environment} {aliases : Bool} {place place' : Place} {name : String}

theorem Continues.literalSchema?_eq (h : env.Continues env') (literal : Literal) :
    env'.literalSchema? literal = env.literalSchema? literal := by
  rw [literalSchema?, literalSchema?, h.literals]

theorem Continues.place?_eq (h : env.Continues env')
    (found : env.place? aliases name = some place) :
    env'.place? aliases name = some place := by
  cases hdeclared : env.declarations name with
  | nil => simp [place?, hdeclared] at found
  | cons first others =>
      obtain ⟨others', hdeclared'⟩ := h.declarations hdeclared
      rw [env.place?_of_declarations hdeclared] at found
      rw [env'.place?_of_declarations hdeclared', found]

theorem Keeps.next (h : env.Keeps env' aliases place)
    (head : (env.graph aliases).next place = some place') : env.Keeps env' aliases place' :=
  fun path member leads => h path member (.next head leads)

theorem Keeps.child (h : env.Keeps env' aliases place) (selector : Selector)
    (head : (env.graph aliases).child place selector = some place') :
    env.Keeps env' aliases place' :=
  fun path member leads => h (selector :: path) member (.child head leads)

end Environment

namespace Resolve

variable {env env' : Environment} {policy : Policy} {aliases : Bool} {c c' d : Context}
  {R R' : Account TypeExpr Schema}

/-- What the first account says of an input, the second one says as well from every like state. -/
def Carries {α β : Type} (R R' : Account α β) (x : α) : Prop :=
  ∀ c y c', R x c y c' → ∀ d, c.Alike d → ∃ d', R' x d y d' ∧ c'.Alike d'

theorem forall₂_memberSchema?_iff {members : List EnumMember} {schemas : List Schema} :
    List.Forall₂ (fun member schema => env.memberSchema? member = some schema) members schemas ↔
      members.map env.memberSchema? = schemas.map some := by
  rw [← List.forall₂_eq_eq_eq, List.forall₂_map_left_iff, List.forall₂_map_right_iff]

theorem sequence_carries {α β : Type} {R R' : Account α β} {xs : List α}
    (each : ∀ x ∈ xs, Carries R R' x) : Carries (Sequence R) (Sequence R') xs := by
  intro c ys c' h
  induction h with
  | nil => exact fun d hd => ⟨d, .nil, hd⟩
  | cons head _ ih =>
      intro d hd
      obtain ⟨middle, hhead, hmiddle⟩ := each _ List.mem_cons_self _ _ _ head d hd
      obtain ⟨d', htail, hd'⟩ := ih (fun x hx => each x (List.mem_cons_of_mem _ hx)) middle hmiddle
      exact ⟨d', .cons hhead htail, hd'⟩

/-- No member has a name that was seen before. -/
theorem findSome?_place?_eq_none {seen : List String} {members : List Member}
    {schemas : List Schema} {name : String} (h : MemberRule R seen members c schemas c')
    (hseen : name ∈ seen) : members.findSome? (Member.place? name) = none := by
  induction h with
  | nil => rfl
  | @cons seen _ _ text _ _ _ _ _ _ _ _ plain _ fresh _ ih =>
      have hne : text ≠ name := fun heq => fresh (heq ▸ hseen)
      simpa [List.findSome?_cons, Member.place?, plain, Except.toOption, hne] using
        ih (List.mem_cons_of_mem text hseen)

theorem memberRule_carries {seen : List String} {members : List Member}
    (each : ∀ name optional type,
      members.findSome? (Member.place? name) = some (.member name optional type) →
        Carries R R' type) :
    Carries (MemberRule R seen) (MemberRule R' seen) members := by
  intro c schemas c' h
  induction h with
  | nil => exact fun d hd => ⟨d, .nil, hd⟩
  | @cons seen location name text type optional _ rest _ _ _ _ plain head fresh tail ih =>
      intro d hd
      have hfirst : Carries R R' type := by
        apply each text optional
        simp [Member.place?, plain, Except.toOption]
      have hrest : ∀ other optional' type', rest.findSome? (Member.place? other) =
          some (.member other optional' type') → Carries R R' type' := by
        intro other optional' type' hother
        apply each other optional'
        have hne : text ≠ other := by
          intro heq
          have hnone : rest.findSome? (Member.place? other) = none :=
            findSome?_place?_eq_none tail (heq ▸ List.mem_cons_self)
          rw [hother] at hnone
          cases hnone
        simpa [List.findSome?_cons, Member.place?, plain, Except.toOption, hne] using hother
      obtain ⟨middle, hhead, hmiddle⟩ := hfirst _ _ _ head d hd
      obtain ⟨d', htail, hd'⟩ := ih hrest middle hmiddle
      exact ⟨d', .cons plain hhead fresh htail, hd'⟩

theorem namedRule_carries {mode : ReferenceMode} {name : String} {schema : Schema}
    {run run' : Context → Schema → Context → Prop}
    (hrun : ∀ c inner c', run c inner c' →
      ∀ d, c.Alike d → ∃ d', run' d inner d' ∧ c'.Alike d')
    (h : NamedRule mode name run c schema c') (hd : c.Alike d) :
    ∃ d', NamedRule mode name run' d schema d' ∧ c'.Alike d' := by
  cases h with
  | finished found => exact ⟨d, .finished (hd.deps_eq ▸ found), hd⟩
  | reentered missing entered =>
      exact ⟨_, .reentered (hd.deps_eq ▸ missing) (hd.resolving_eq ▸ entered), (hd.note _ _).mark⟩
  | recorded missing fresh resolved kept =>
      obtain ⟨after', hbody, hafter⟩ := hrun _ _ _ resolved _ hd.enter
      refine ⟨_, .recorded (hd.deps_eq ▸ missing) (hd.resolving_eq ▸ fresh) hbody
        (hafter.recursive_eq ▸ kept), ?_⟩
      exact ((hafter.leave).note _ _).define
  | inlined missing fresh resolved dropped =>
      obtain ⟨after', hbody, hafter⟩ := hrun _ _ _ resolved _ hd.enter
      exact ⟨_, .inlined (hd.deps_eq ▸ missing) (hd.resolving_eq ▸ fresh) hbody
        (hafter.recursive_eq ▸ dropped), hafter.leave⟩

section Places

variable (hR : ∀ type, env.Keeps env' aliases (.type type) → Carries R R' type)

include hR

theorem object_carries {location : Option Location} {members : List Member} {seen : List String}
    (keeps : env.Keeps env' aliases (.type (.object location members))) :
    Carries (MemberRule R seen) (MemberRule R' seen) members := by
  apply memberRule_carries
  intro name optional type hmember
  have hproperty : env.Keeps env' aliases (.member name optional type) :=
    keeps.child (.member name) hmember
  exact hR type (hproperty.child .content rfl)

theorem bodyRule_carries {declaration : Declaration} {target : Place}
    (htarget : declaration.place? aliases = some target) (keeps : env.Keeps env' aliases target) :
    Carries (BodyRule env R) (BodyRule env' R') declaration := by
  intro c schema c' h d hd
  cases h with
  | @enum location name members schemas _ values =>
      obtain rfl := Option.some.inj htarget
      have hmembers : members.map env'.memberSchema? = members.map env.memberSchema? := by
        apply List.map_congr_left
        intro member hmember
        obtain ⟨index, hindex⟩ := List.mem_iff_getElem?.mp hmember
        have hchild : env.Keeps env' aliases (.enumMember member) := by
          apply keeps.child (.enumMember index)
          simp [Environment.graph, hindex]
        exact hchild [] member .stop
      refine ⟨_, .enum ?_, hd.note _ _⟩
      rw [forall₂_memberSchema?_iff] at values ⊢
      exact hmembers.trans values
  | interface contents =>
      obtain rfl := Option.some.inj htarget
      obtain ⟨d', hcontents, hd'⟩ := object_carries hR keeps _ _ _ contents _ (hd.note _ _)
      exact ⟨d', .interface hcontents, hd'⟩
  | typeAlias aliased =>
      cases aliases with
      | false => cases htarget
      | true =>
          obtain rfl := Option.some.inj htarget
          obtain ⟨d', haliased, hd'⟩ := hR _ keeps _ _ _ aliased d hd
          exact ⟨d', .typeAlias haliased, hd'⟩

end Places

theorem referenceRule_carries (continues : env.Continues env') {name : String}
    {arguments : List TypeExpr} {place : Place} {schema : Schema}
    (hR : ∀ type, env.Keeps env' policy.aliases (.type type) → Carries R R' type)
    (hplace : (env.graph policy.aliases).next place = env.place? policy.aliases name)
    (keeps : env.Keeps env' policy.aliases place)
    (h : ReferenceRule env policy (BodyRule env R) name arguments c schema c') (hd : c.Alike d) :
    ∃ d', ReferenceRule env' policy (BodyRule env' R') name arguments d schema d' ∧
      c'.Alike d' := by
  cases h with
  | @member member _ _ _ _ found value ends =>
      have htarget : env.place? policy.aliases name = some (.enumMember member) :=
        env.place?_of_declarations found
      have hvalue : env'.memberSchema? member = env.memberSchema? member :=
        keeps.next (hplace.trans htarget) [] member .stop
      obtain ⟨others', found'⟩ := continues.declarations found
      refine ⟨_, .member found' (hvalue.trans value) rfl, ?_⟩
      rw [ends]
      exact ((hd.note _ _).note _ _).note _ _
  | @definition first _ _ _ _ found followed named =>
      obtain ⟨target, hbody⟩ := Declaration.exists_place_of_isFollowed followed
      have htarget : env.place? policy.aliases name = some target :=
        (env.place?_of_declarations found).trans hbody
      have hcarries : Carries (BodyRule env R) (BodyRule env' R') first :=
        bodyRule_carries hR hbody (keeps.next (hplace.trans htarget))
      obtain ⟨others', found'⟩ := continues.declarations found
      obtain ⟨d', hnamed, hd'⟩ := namedRule_carries hcarries named
        ((hd.note _ _).note _ _)
      exact ⟨d', .definition found' followed hnamed, hd'⟩

theorem typeRule_carries (continues : env.Continues env') {type : TypeExpr}
    (hR : ∀ type, env.Keeps env' policy.aliases (.type type) → Carries R R' type)
    (keeps : env.Keeps env' policy.aliases (.type type)) :
    Carries (TypeRule env policy R (BodyRule env R)) (TypeRule env' policy R' (BodyRule env' R'))
      type := by
  -- the parts of a union or an intersection are reached by their index
  have hparts : ∀ {parts : List TypeExpr}, (∀ (index : Nat) part, parts[index]? = some part →
      env.Keeps env' policy.aliases (.type part)) → Carries (Sequence R) (Sequence R') parts := by
    intro parts hkeeps
    apply sequence_carries
    intro part hpart
    obtain ⟨index, hindex⟩ := List.mem_iff_getElem?.mp hpart
    exact hR part (hkeeps index part hindex)
  intro c schema c' h d hd
  cases h with
  | keyword meaning => exact ⟨d, .keyword meaning, hd⟩
  | literal meaning =>
      exact ⟨d, .literal ((continues.literalSchema?_eq _).trans meaning), hd⟩
  | array inner =>
      obtain ⟨d', hinner, hd'⟩ := hR _ (keeps.child .element rfl) _ _ _ inner d hd
      exact ⟨d', .array hinner, hd'⟩
  | union inner =>
      obtain ⟨d', hinner, hd'⟩ := hparts (fun index part hpart =>
        keeps.child (.part index) (by simp [Environment.graph, hpart])) _ _ _ inner d hd
      exact ⟨d', .union hinner, hd'⟩
  | intersection inner =>
      obtain ⟨d', hinner, hd'⟩ := hparts (fun index part hpart =>
        keeps.child (.part index) (by simp [Environment.graph, hpart])) _ _ _ inner d hd
      exact ⟨d', .intersection hinner, hd'⟩
  | parenthesized inner =>
      obtain ⟨d', hinner, hd'⟩ := hR _ (keeps.next rfl) _ _ _ inner d hd
      exact ⟨d', .parenthesized hinner, hd'⟩
  | @tuple _ elements _ _ _ inner =>
      have helements : ∀ (index : Nat) part, elements[index]? = some part →
          env.Keeps env' policy.aliases (.type part) := by
        intro index part hpart
        have helement : env.Keeps env' policy.aliases (.element index part) :=
          keeps.child (.position index) (by simp [Environment.graph, hpart])
        exact helement.child .content rfl
      obtain ⟨d', hinner, hd'⟩ := hparts helements _ _ _ inner d hd
      exact ⟨d', .tuple hinner, hd'⟩
  | object inner =>
      obtain ⟨d', hinner, hd'⟩ := object_carries hR keeps _ _ _ inner d hd
      exact ⟨d', .object hinner, hd'⟩
  | reference inner =>
      obtain ⟨d', hinner, hd'⟩ := referenceRule_carries continues hR rfl keeps inner hd
      exact ⟨d', .reference hinner, hd'⟩

/-- **A type expression keeps its resolution in a larger environment** that keeps the values of the
members it leads to. -/
theorem typeWithin_carries (continues : env.Continues env') (budget : Nat) {type : TypeExpr}
    (keeps : env.Keeps env' policy.aliases (.type type)) :
    Carries (Gives (typeWithin env policy budget))
      (Gives (typeWithin env' policy budget)) type := by
  induction budget generalizing type with
  | zero =>
      intro c schema c' h
      exact absurd h typeWithin_zero_ne_ok
  | succ budget ih =>
      intro c schema c' h d hd
      obtain ⟨d', hrule, hd'⟩ := typeRule_carries continues (fun _ => ih) keeps _ _ _
        (typeWithin_succ_eq_ok_iff.mp h) d hd
      exact ⟨d', typeWithin_succ_eq_ok_iff.mpr hrule, hd'⟩

end Resolve

theorem resolveWithin_eq_ok_of_keeps {env env' : Environment} (continues : env.Continues env')
    {budget : Nat} {policy : Policy} {type : TypeExpr} {model : Model}
    (keeps : env.Keeps env' policy.aliases (.type type))
    (h : (resolveWithin budget env policy type).1 = .ok model) :
    (resolveWithin budget env' policy type).1 = .ok model := by
  rw [resolveWithin_eq_ok_iff] at h ⊢
  obtain ⟨c, hrun, hdeps⟩ := h
  obtain ⟨d, hrun', hd⟩ :=
    Resolve.typeWithin_carries continues budget keeps _ _ _ hrun {} (.refl {})
  exact ⟨d, hrun', hd.deps_eq.trans hdeps⟩

end TypeSchema
