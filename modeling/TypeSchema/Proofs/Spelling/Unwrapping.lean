import TypeSchema.Proofs.Resolution.Locality
import TypeSchema.Source.Stripped

/-!
# Source that says the same

Two trees say the same if they differ in locations, parentheses, type arguments and the types that
interfaces extend only. When the second tree has no parentheses, it is unwrapped: then both have the
same outermost node as soon as the parentheses around the first one are taken off, and their parts
correspond. A table keeps declarations and values without regard to any of this, so tables of
declarations that correspond answer alike; what a literal or a name fails with is the same problem
of another node.
-/

namespace TypeSchema

/-- The second type expression says the same as the first one and is unwrapped. -/
structure TypeExpr.Unwraps (type type' : TypeExpr) : Prop where
  same : type'.stripped = type.stripped
  unwrapped : type'.isUnwrapped

structure Member.Unwraps (member member' : Member) : Prop where
  same : member'.stripped = member.stripped
  unwrapped : member'.isUnwrapped

structure Declaration.Unwraps (declaration declaration' : Declaration) : Prop where
  same : declaration'.stripped = declaration.stripped
  unwrapped : declaration'.isUnwrapped

/-! ### Corresponding parts -/

/-- Lists that are the same under two functions correspond item by item. -/
theorem forall₂_of_map_eq {α β : Type} {f g : α → β} {p : α → Prop} {xs ys : List α}
    (h : ys.map g = xs.map f) (hp : ∀ y ∈ ys, p y) :
    List.Forall₂ (fun x y => g y = f x ∧ p y) xs ys := by
  have hequal : List.Forall₂ Eq (ys.map g) (xs.map f) := List.forall₂_eq_eq_eq ▸ h
  have hsame : List.Forall₂ (fun y x => g y = f x) ys xs :=
    List.forall₂_map_right_iff.mp (List.forall₂_map_left_iff.mp hequal)
  exact (((List.forall₂_and_left _ _).mpr ⟨hp, hsame⟩).imp fun _ _ hboth => hboth.symm).flip

namespace TypeExpr

variable {type type' : TypeExpr} {types types' : List TypeExpr} {members members' : List Member}

theorem unwraps_of_strippedAll (h : strippedAll types' = strippedAll types)
    (hunwrapped : areUnwrapped types') : List.Forall₂ Unwraps types types' := by
  rw [strippedAll_eq_map, strippedAll_eq_map] at h
  exact (forall₂_of_map_eq h (areUnwrapped_iff.mp hunwrapped)).imp fun _ _ hboth =>
    ⟨hboth.1, hboth.2⟩

theorem unwraps_of_map_stripped (h : members'.map Member.stripped = members.map Member.stripped)
    (hunwrapped : ∀ member ∈ members', member.isUnwrapped) :
    List.Forall₂ Member.Unwraps members members' :=
  (forall₂_of_map_eq h hunwrapped).imp fun _ _ hboth => ⟨hboth.1, hboth.2⟩

/-- How a type expression and an unwrapped one that says the same are made up. -/
inductive UnwrapRule : TypeExpr → TypeExpr → Prop
  | parenthesized {location : Option Location} {type type' : TypeExpr}
      (inner : type.Unwraps type') : UnwrapRule (.parenthesized location type) type'
  | keyword {location location' : Option Location} {word : Keyword} :
      UnwrapRule (.keyword location word) (.keyword location' word)
  | literal {location location' : Option Location} {expression expression' : Literal}
      (same : expression'.unlocated = expression.unlocated) :
      UnwrapRule (.literal location expression) (.literal location' expression')
  | array {location location' : Option Location} {element element' : TypeExpr}
      (inner : element.Unwraps element') :
      UnwrapRule (.array location element) (.array location' element')
  | union {location location' : Option Location} {parts parts' : List TypeExpr}
      (inner : List.Forall₂ Unwraps parts parts') :
      UnwrapRule (.union location parts) (.union location' parts')
  | intersection {location location' : Option Location} {parts parts' : List TypeExpr}
      (inner : List.Forall₂ Unwraps parts parts') :
      UnwrapRule (.intersection location parts) (.intersection location' parts')
  | tuple {location location' : Option Location} {elements elements' : List TypeExpr}
      (inner : List.Forall₂ Unwraps elements elements') :
      UnwrapRule (.tuple location elements) (.tuple location' elements')
  | object {location location' : Option Location} {members members' : List Member}
      (inner : List.Forall₂ Member.Unwraps members members') :
      UnwrapRule (.object location members) (.object location' members')
  | reference {location location' : Option Location} {name : String}
      {arguments arguments' : List TypeExpr} :
      UnwrapRule (.reference location name arguments) (.reference location' name arguments')
  | unsupported {location location' : Option Location} {kind : String} :
      UnwrapRule (.unsupported location kind) (.unsupported location' kind)
  | foreign {location location' : Option Location} {word : String} :
      UnwrapRule (.foreign location word) (.foreign location' word)

theorem Unwraps.rule (h : type.Unwraps type') : UnwrapRule type type' := by
  obtain ⟨hsame, hunwrapped⟩ := h
  cases type with
  | parenthesized location inner => exact .parenthesized ⟨hsame, hunwrapped⟩
  | keyword location word =>
      cases type' with
      | keyword _ _ =>
          cases hsame
          exact .keyword
      | _ => first | cases hsame | cases hunwrapped
  | literal location expression =>
      cases type' with
      | literal _ _ => exact .literal (literal.inj hsame).2
      | _ => first | cases hsame | cases hunwrapped
  | array location element =>
      cases type' with
      | array _ _ => exact .array ⟨(array.inj hsame).2, hunwrapped⟩
      | _ => first | cases hsame | cases hunwrapped
  | union location parts =>
      cases type' with
      | union _ _ =>
          have hparts := (union.inj hsame).2
          exact .union (unwraps_of_strippedAll hparts hunwrapped)
      | _ => first | cases hsame | cases hunwrapped
  | intersection location parts =>
      cases type' with
      | intersection _ _ =>
          have hparts := (intersection.inj hsame).2
          exact .intersection (unwraps_of_strippedAll hparts hunwrapped)
      | _ => first | cases hsame | cases hunwrapped
  | tuple location elements =>
      cases type' with
      | tuple _ _ =>
          have helements := (tuple.inj hsame).2
          exact .tuple (unwraps_of_strippedAll helements hunwrapped)
      | _ => first | cases hsame | cases hunwrapped
  | object location members =>
      cases type' with
      | object _ _ =>
          have hmembers := (object.inj hsame).2
          rw [Member.strippedAll_eq_map, Member.strippedAll_eq_map] at hmembers
          exact .object (unwraps_of_map_stripped hmembers (Member.areUnwrapped_iff.mp hunwrapped))
      | _ => first | cases hsame | cases hunwrapped
  | reference location name arguments =>
      cases type' with
      | reference _ _ _ =>
          cases hsame
          exact .reference
      | _ => first | cases hsame | cases hunwrapped
  | unsupported location kind =>
      cases type' with
      | unsupported _ _ =>
          cases hsame
          exact .unsupported
      | _ => first | cases hsame | cases hunwrapped
  | foreign location word =>
      cases type' with
      | foreign _ _ =>
          cases hsame
          exact .foreign
      | _ => first | cases hsame | cases hunwrapped

end TypeExpr

/-- How a member and an unwrapped one that says the same are made up. -/
inductive Member.UnwrapRule : Member → Member → Prop
  | untyped {location location' : Option Location} {name name' : PropertyName} {optional : Bool} :
      UnwrapRule (.property location name none optional) (.property location' name' none optional)
  | typed {location location' : Option Location} {name name' : PropertyName}
      {type type' : TypeExpr} {optional : Bool} (named : name'.unlocated = name.unlocated)
      (inner : type.Unwraps type') :
      UnwrapRule (.property location name (some type) optional)
        (.property location' name' (some type') optional)
  | index {location location' : Option Location} {parameter : String}
      {key key' type type' : Option TypeExpr} (same : type'.isSome = type.isSome) :
      UnwrapRule (.index location parameter key type) (.index location' parameter key' type')
  | other {location location' : Option Location} {kind : String}
      {name name' : Option PropertyName} :
      UnwrapRule (.other location kind name) (.other location' kind name')
  | foreign {location location' : Option Location} {word : String} :
      UnwrapRule (.foreign location word) (.foreign location' word)

theorem Member.Unwraps.rule {member member' : Member} (h : member.Unwraps member') :
    UnwrapRule member member' := by
  obtain ⟨hsame, hunwrapped⟩ := h
  cases member with
  | property location name type optional =>
      cases member' with
      | property _ _ type' _ =>
          obtain ⟨-, hname, htype, rfl⟩ := property.inj hsame
          cases type <;> cases type' <;> simp only [TypeExpr.strippedOption, reduceCtorEq] at htype
          · exact .untyped
          · exact .typed hname ⟨Option.some.inj htype, hunwrapped⟩
      | _ => cases hsame
  | index location parameter key type =>
      cases member' with
      | index _ _ _ type' =>
          obtain ⟨-, rfl, -, htype⟩ := index.inj hsame
          refine .index ?_
          cases type <;> cases type' <;> simp [TypeExpr.strippedOption] at htype ⊢
      | _ => cases hsame
  | other location kind name =>
      cases member' with
      | other _ _ _ =>
          obtain ⟨-, rfl, -⟩ := other.inj hsame
          exact .other
      | _ => cases hsame
  | foreign location word =>
      cases member' with
      | foreign _ _ =>
          cases hsame
          exact .foreign
      | _ => cases hsame

/-- How a declaration and an unwrapped one that says the same are made up. -/
inductive Declaration.UnwrapRule : Declaration → Declaration → Prop
  | enum {location location' : Option Location} {name : String} {members members' : List EnumMember}
      (inner : List.Forall₂ (fun member member' => member'.unlocated = member.unlocated)
        members members') :
      UnwrapRule (.enum location name members) (.enum location' name members')
  | enumMember {member member' : EnumMember} (same : member'.unlocated = member.unlocated) :
      UnwrapRule (.enumMember member) (.enumMember member')
  | interface {location location' : Option Location} {name : String}
      {members members' : List Member} {bases bases' : List BaseType}
      (inner : List.Forall₂ Member.Unwraps members members') :
      UnwrapRule (.interface location name members bases)
        (.interface location' name members' bases')
  | typeAlias {location location' : Option Location} {name : String} {type type' : TypeExpr}
      (inner : type.Unwraps type') :
      UnwrapRule (.typeAlias location name type) (.typeAlias location' name type')
  | other {location location' : Option Location} {name kind : String} :
      UnwrapRule (.other location name kind) (.other location' name kind)
  | foreign {location location' : Option Location} {name word : String} :
      UnwrapRule (.foreign location name word) (.foreign location' name word)

theorem Declaration.Unwraps.rule {declaration declaration' : Declaration}
    (h : declaration.Unwraps declaration') : UnwrapRule declaration declaration' := by
  obtain ⟨hsame, hunwrapped⟩ := h
  cases declaration with
  | enum location name members =>
      cases declaration' with
      | enum _ _ _ =>
          obtain ⟨-, rfl, hmembers⟩ := enum.inj hsame
          exact .enum ((forall₂_of_map_eq hmembers fun _ _ => trivial).imp fun _ _ hboth => hboth.1)
      | _ => cases hsame
  | enumMember member =>
      cases declaration' with
      | enumMember _ => exact .enumMember (enumMember.inj hsame)
      | _ => cases hsame
  | interface location name members bases =>
      cases declaration' with
      | interface _ _ _ _ =>
          obtain ⟨-, rfl, hmembers, -⟩ := interface.inj hsame
          exact .interface
            (TypeExpr.unwraps_of_map_stripped hmembers (List.all_eq_true.mp hunwrapped))
      | _ => cases hsame
  | typeAlias location name type =>
      cases declaration' with
      | typeAlias _ _ _ =>
          obtain ⟨-, rfl, htype⟩ := typeAlias.inj hsame
          exact .typeAlias ⟨htype, hunwrapped⟩
      | _ => cases hsame
  | other location name kind =>
      cases declaration' with
      | other _ _ _ =>
          cases hsame
          exact .other
      | _ => cases hsame
  | foreign location name word =>
      cases declaration' with
      | foreign _ _ _ =>
          cases hsame
          exact .foreign
      | _ => cases hsame

/-! ### Corresponding tables -/

theorem Declaration.qualifiedName_stripped (declaration : Declaration) :
    declaration.stripped.qualifiedName = declaration.qualifiedName := by
  cases declaration <;> rfl

theorem Declaration.Unwraps.qualifiedName_eq {declaration declaration' : Declaration}
    (h : declaration.Unwraps declaration') :
    declaration'.qualifiedName = declaration.qualifiedName := by
  rw [← declaration'.qualifiedName_stripped, h.same, declaration.qualifiedName_stripped]

theorem Evaluated.ofMembers_unlocated (previous : Option Evaluated) (members : List EnumMember) :
    ofMembers previous (members.map EnumMember.unlocated) =
      (ofMembers previous members).map (Prod.map EnumMember.unlocated id) := by
  induction members generalizing previous with
  | nil => rfl
  | cons member rest ih =>
      have hfirst : ofMember previous member.unlocated = ofMember previous member := by
        unfold ofMember EnumMember.unlocated
        cases member.initializer <;> rfl
      rw [List.map_cons, ofMembers, ofMembers, hfirst, ih]
      rfl

namespace DeclarationTable

theorem entriesOf_stripped (declaration : Declaration) :
    entriesOf declaration.stripped =
      (entriesOf declaration).map (Prod.map id Declaration.stripped) := by
  cases declaration with
  | enum location name members =>
      simp only [Declaration.stripped, entriesOf, List.map_cons, List.map_map]
      rfl
  | _ => rfl

theorem valuesOf_stripped (declaration : Declaration) :
    valuesOf declaration.stripped = valuesOf declaration := by
  cases declaration with
  | enum location name members =>
      simp only [Declaration.stripped, valuesOf, Evaluated.ofMembers_unlocated, List.map_map]
      rfl
  | _ => rfl

theorem declarations_stripped (declarations : List Declaration) (name : String) :
    (ofList (declarations.map Declaration.stripped)).declarations name =
      ((ofList declarations).declarations name).map Declaration.stripped := by
  simp only [DeclarationTable.declarations, ofList_entries, List.flatMap_map, entriesOf_stripped,
    ← List.map_flatMap, List.filterMap_map, List.map_filterMap]
  refine List.filterMap_congr fun entry _ => ?_
  simp only [Function.comp_apply, Prod.map_fst, Prod.map_snd, id_eq]
  split <;> rfl

theorem values_stripped (declarations : List Declaration) :
    (ofList (declarations.map Declaration.stripped)).values = (ofList declarations).values := by
  simp only [ofList_values, List.flatMap_map, valuesOf_stripped]

end DeclarationTable

/-- The second environment answers like the first one where it is asked the same. Its declarations
are unwrapped. -/
structure Environment.Unwraps (env env' : Environment) : Prop where
  declarations : ∀ name,
    List.Forall₂ Declaration.Unwraps (env.declarations name) (env'.declarations name)
  literals : ∀ {expression expression' : Literal}, expression'.unlocated = expression.unlocated →
    (env'.evaluateLiteral expression').mapError Failure.problem =
      (env.evaluateLiteral expression).mapError Failure.problem
  members : ∀ {member member' : EnumMember}, member'.unlocated = member.unlocated →
    env'.evaluateMember member' = env.evaluateMember member

theorem Literal.kind_eq_and_text_eq {expression expression' : Literal}
    (h : expression'.unlocated = expression.unlocated) :
    expression'.kind = expression.kind ∧ expression'.text = expression.text := by
  have hkind := congrArg Literal.kind h
  have htext := congrArg Literal.text h
  exact ⟨hkind, htext⟩

theorem Environment.evaluate_mapError {expression expression' : Literal}
    (h : expression'.unlocated = expression.unlocated) :
    (evaluate expression').mapError Failure.problem =
      (evaluate expression).mapError Failure.problem := by
  obtain ⟨hkind, htext⟩ := Literal.kind_eq_and_text_eq h
  have hvalue : expression'.evaluate? = expression.evaluate? := by
    rw [Literal.evaluate?, Literal.evaluate?, hkind, htext]
  rw [evaluate, evaluate, hvalue]
  cases expression.evaluate? with
  | some evaluated => rfl
  | none =>
      rw [hkind, htext]
      rfl

theorem Evaluated.ofUnregistered_unlocated (member : EnumMember) :
    ofUnregistered member.unlocated = ofUnregistered member := by
  unfold ofUnregistered EnumMember.unlocated
  cases member.initializer <;> rfl

theorem Environment.unwraps_ofTable {declarations declarations' : List Declaration}
    (hsame : declarations'.map Declaration.stripped = declarations.map Declaration.stripped)
    (hunwrapped : ∀ declaration ∈ declarations', declaration.isUnwrapped) :
    (ofTable (.ofList declarations)).Unwraps (ofTable (.ofList declarations')) where
  declarations := by
    intro name
    have hmap : ((DeclarationTable.ofList declarations').declarations name).map
          Declaration.stripped =
        ((DeclarationTable.ofList declarations).declarations name).map Declaration.stripped := by
      rw [← DeclarationTable.declarations_stripped, hsame, DeclarationTable.declarations_stripped]
    have hbare : ∀ declaration ∈ (DeclarationTable.ofList declarations').declarations name,
        declaration.isUnwrapped := by
      intro declaration mem
      obtain hsource | ⟨member, rfl⟩ :=
        DeclarationTable.mem_or_enumMember_of_mem_declarations mem
      · exact hunwrapped declaration hsource
      · rfl
    exact (forall₂_of_map_eq hmap hbare).imp fun _ _ hboth => ⟨hboth.1, hboth.2⟩
  literals := evaluate_mapError
  members := by
    intro member member' h
    have hname := congrArg EnumMember.qualifiedName h
    change member'.qualifiedName = member.qualifiedName at hname
    have hvalues : (DeclarationTable.ofList declarations').values =
        (DeclarationTable.ofList declarations).values := by
      rw [← DeclarationTable.values_stripped, hsame, DeclarationTable.values_stripped]
    have hdefault : Evaluated.ofUnregistered member' = Evaluated.ofUnregistered member := by
      rw [← Evaluated.ofUnregistered_unlocated, h, Evaluated.ofUnregistered_unlocated]
    change DeclarationTable.evaluateMember _ member' = DeclarationTable.evaluateMember _ member
    rw [DeclarationTable.evaluateMember, DeclarationTable.evaluateMember, DeclarationTable.value?,
      DeclarationTable.value?, hvalues, hname, hdefault]

end TypeSchema
