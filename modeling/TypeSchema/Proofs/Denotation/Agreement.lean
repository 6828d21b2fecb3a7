import TypeSchema.Proofs.Denotation.Place
import TypeSchema.Proofs.Resolution.Closed

/-!
# Schemas denote what the source says

A schema is compared with a place in the source, node by node, and a reference with whatever the
place stands for. That comparison does not look at the state of a resolution, so it holds of a
schema wherever it was built or copied to: in `expand` mode a declaration may be inlined, cut to a
reference or copied from the table, and in each case it denotes the same.
-/

namespace TypeSchema

/-- The schema describes what the place does. A reference describes a place that stands for what
its name stands for. -/
inductive Denotes (env : Environment) (aliases : Bool) : Schema → Place → Prop
  | reference {name : String} {place target : Place}
      (later : (env.graph aliases).StandsFor place target)
      (found : env.place? aliases name = some target) :
      Denotes env aliases (.reference name) place
  | node {schema : Schema} {place place' : Place} {label : Label}
      (leads : (env.graph aliases).Leads place [] place') (here : schema.label? = some label)
      (there : (env.graph aliases).label place' = some label)
      (same : ∀ selector,
        (schema.child? selector).isSome = ((env.graph aliases).child place' selector).isSome)
      (children : ∀ selector child child', schema.child? selector = some child →
        (env.graph aliases).child place' selector = some child' →
          Denotes env aliases child child') :
      Denotes env aliases schema place

/-- A member schema describes a property: its plain name, its flag and its type. -/
inductive MemberDenotes (env : Environment) (aliases : Bool) : Schema → Member → Prop
  | property {location : Option Location} {name : PropertyName} {text : String} {type : TypeExpr}
      {optional : Bool} {schema : Schema} (plain : name.plain = .ok text)
      (inner : Denotes env aliases schema (.type type)) :
      MemberDenotes env aliases (.member text optional schema)
        (.property location name (some type) optional)

section Children

variable {α β γ δ : Type} {R : α → β → Prop}

theorem rel_isSome {x : Option α} {y : Option β}
    (h : Option.Rel R x y) : x.isSome = y.isSome := by
  cases h <;> rfl

theorem rel_getElem? {xs : List α} {ys : List β}
    (h : List.Forall₂ R xs ys) (index : Nat) : Option.Rel R xs[index]? ys[index]? := by
  induction h generalizing index with
  | nil => exact .none
  | cons head _ ih =>
      cases index with
      | zero => exact .some head
      | succ index => exact ih index

theorem rel_map {R' : γ → δ → Prop} {f : α → γ} {g : β → δ}
    {x : Option α} {y : Option β} (h : Option.Rel R x y) (hR : ∀ x y, R x y → R' (f x) (g y)) :
    Option.Rel R' (x.map f) (y.map g) := by
  cases h with
  | none => exact .none
  | some head => exact .some (hR _ _ head)

theorem rel_map_right {R' : α → δ → Prop} {g : β → δ} {x : Option α} {y : Option β}
    (h : Option.Rel R x y) (hR : ∀ x y, R x y → R' x (g y)) : Option.Rel R' x (y.map g) := by
  cases h with
  | none => exact .none
  | some head => exact .some (hR _ _ head)

end Children

namespace Denotes

variable {env : Environment} {aliases : Bool} {schema : Schema} {place place' : Place}

theorem of_next (head : (env.graph aliases).next place = some place')
    (h : Denotes env aliases schema place') : Denotes env aliases schema place := by
  cases h with
  | reference later found => exact .reference ⟨_, head, later.leads⟩ found
  | node leads here there same children => exact .node (.next head leads) here there same children

theorem of_children {label : Label} (here : schema.label? = some label)
    (there : (env.graph aliases).label place = some label)
    (children : ∀ selector, Option.Rel (Denotes env aliases) (schema.child? selector)
      ((env.graph aliases).child place selector)) :
    Denotes env aliases schema place := by
  refine .node .stop here there (fun selector => rel_isSome (children selector)) ?_
  · intro selector child child' hchild hchild'
    have hrel := children selector
    rw [hchild, hchild'] at hrel
    cases hrel
    assumption

theorem of_isLeaf (leaf : schema.isLeaf) (there : (env.graph aliases).label place = schema.label?)
    (childless : ∀ selector, (env.graph aliases).child place selector = none) :
    Denotes env aliases schema place := by
  have hchild : ∀ selector, schema.child? selector = none := by
    intro selector
    cases schema <;> first | rfl | simp [Schema.isLeaf] at leaf
  obtain ⟨label, hlabel⟩ : ∃ label, schema.label? = some label := by
    cases schema <;> first | exact ⟨_, rfl⟩ | simp [Schema.isLeaf] at leaf
  refine of_children hlabel (there.trans hlabel) fun selector => ?_
  rw [hchild, childless]
  exact .none

/-! ### Lists of children -/

theorem array {location : Option Location} {type : TypeExpr}
    (h : Denotes env aliases schema (.type type)) :
    Denotes env aliases (.array schema) (.type (.array location type)) := by
  refine of_children rfl rfl fun selector => ?_
  cases selector with
  | element => exact .some h
  | _ => exact .none

section Lists

variable {location : Option Location} {schemas : List Schema} {types : List TypeExpr}
  (h : List.Forall₂ (fun schema type => Denotes env aliases schema (.type type)) schemas types)

include h

theorem union : Denotes env aliases (.union schemas) (.type (.union location types)) := by
  refine of_children rfl ?_ fun selector => ?_
  · rw [h.length_eq]
    rfl
  · cases selector with
    | part index => exact rel_map_right (rel_getElem? h index) fun _ _ hrel => hrel
    | _ => exact .none

theorem intersection :
    Denotes env aliases (.intersection schemas) (.type (.intersection location types)) := by
  refine of_children rfl ?_ fun selector => ?_
  · rw [h.length_eq]
    rfl
  · cases selector with
    | part index => exact rel_map_right (rel_getElem? h index) fun _ _ hrel => hrel
    | _ => exact .none

theorem tuple :
    Denotes env aliases
      (.tuple (schemas.mapIdx fun position schema => .tupleElement position schema))
      (.type (.tuple location types)) := by
  refine of_children rfl ?_ fun selector => ?_
  · rw [List.length_mapIdx, h.length_eq]
    rfl
  · cases selector with
    | position index =>
        simp only [Schema.child?, List.getElem?_mapIdx]
        refine rel_map (rel_getElem? h index) fun schema type hschema => ?_
        refine of_children rfl rfl fun selector => ?_
        cases selector with
        | content => exact .some hschema
        | _ => exact .none
    | _ => exact .none

end Lists

/-! ### Members of objects and of enums -/

theorem member {name : String} {optional : Bool} {type : TypeExpr}
    (h : Denotes env aliases schema (.type type)) :
    Denotes env aliases (.member name optional schema) (.member name optional type) := by
  refine of_children rfl rfl fun selector => ?_
  cases selector with
  | content => exact .some h
  | _ => exact .none

theorem memberNames_eq {schemas : List Schema} {members : List Member}
    (h : List.Forall₂ (MemberDenotes env aliases) schemas members) :
    schemas.map Schema.memberName? = members.map Member.name? := by
  induction h with
  | nil => rfl
  | cons head _ ih =>
      obtain ⟨plain, -⟩ := head
      rw [List.map_cons, List.map_cons, ih, Member.name?, plain]
      rfl

/-- The first property of a name becomes the first member of that name. -/
theorem rel_find? {schemas : List Schema} {members : List Member}
    (h : List.Forall₂ (MemberDenotes env aliases) schemas members) (name : String) :
    Option.Rel (Denotes env aliases) (schemas.find? (Schema.isMember name))
      (members.findSome? (Member.place? name)) := by
  induction h with
  | nil => exact .none
  | cons head _ ih =>
      obtain @⟨_, _, text, _, _, _, plain, inner⟩ := head
      by_cases htext : text = name
      · simp only [List.find?_cons, List.findSome?_cons, Schema.isMember, Member.place?, plain,
          Except.toOption, htext, decide_true, ↓reduceIte]
        exact .some (member inner)
      · simpa [List.find?_cons, List.findSome?_cons, Schema.isMember, Member.place?, plain,
          Except.toOption, htext] using ih

theorem object {location : Option Location} {schemas : List Schema} {members : List Member}
    (h : List.Forall₂ (MemberDenotes env aliases) schemas members) :
    Denotes env aliases (.object schemas) (.type (.object location members)) := by
  refine of_children rfl ?_ fun selector => ?_
  · rw [memberNames_eq h]
    rfl
  · cases selector with
    | member name => exact rel_find? h name
    | _ => exact .none

theorem enumMember {member : EnumMember} (h : env.memberSchema? member = some schema) :
    Denotes env aliases schema (.enumMember member) := by
  obtain ⟨text, value, hname, hvalue, rfl⟩ := Environment.memberSchema?_eq_some_iff.mp h
  refine of_children rfl ?_ fun selector => ?_
  · simp [Environment.graph, hname]
  · cases selector with
    | content =>
        refine .some (of_isLeaf (Evaluated.isLeaf_of_literalSchema? hvalue) ?_ fun _ => rfl)
        simp [Environment.graph, hvalue]
    | _ => exact .none

theorem enum {name : String} {schemas : List Schema} {members : List EnumMember}
    (h : List.Forall₂ (fun member schema => env.memberSchema? member = some schema) members
      schemas) :
    Denotes env aliases (.enum name schemas) (.enum name members) := by
  have hmembers : List.Forall₂ (fun schema member => env.memberSchema? member = some schema) schemas
      members := h.flip
  refine of_children rfl ?_ fun selector => ?_
  · have hnames : schemas.map Schema.memberName? =
        members.map fun member => member.memberName.plain.toOption := by
      clear h
      induction hmembers with
      | nil => rfl
      | cons head _ ih =>
          obtain ⟨text, value, hname, -, rfl⟩ := Environment.memberSchema?_eq_some_iff.mp head
          rw [List.map_cons, List.map_cons, ih, hname]
          rfl
    rw [hnames]
    rfl
  · cases selector with
    | enumMember index => exact rel_map_right (rel_getElem? hmembers index) fun _ _ => enumMember
    | _ => exact .none

end Denotes

end TypeSchema
