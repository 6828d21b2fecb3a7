import TypeSchema.Proofs.Reachability.Basic
import TypeSchema.Proofs.Resolution.Closed

/-!
# The course of a resolution

A successful rule does one of two things to the state: it resolves the parts of the type expression
one after the other, or it goes on into the first declaration of a name. From that follows where
everything comes from that a resolution adds to its state. New definitions are those of
declarations that it reaches; a name is marked as recursive when its declaration is reached again
while it is open, from before or below the declaration itself. In `expand` mode only marked names
are defined.
-/

namespace TypeSchema

/-- The declaration reaches itself by references. -/
def Environment.IsRecursive (env : Environment) (aliases : Bool) (declaration : Declaration) :
    Prop :=
  Relation.TransGen (env.Below aliases []) (.declaration declaration) (.declaration declaration)

namespace Resolve

variable {env : Environment} {policy : Policy} {R : Account TypeExpr Schema}
  {B : Account Declaration Schema} {c c' : Context} {schema : Schema} {name : String}
  {declaration first : Declaration} {type : TypeExpr} {node : Node}

/-! ### Rules as sequences of their parts -/

theorem MemberRule.parts {seen : List String} {members : List Member} {schemas : List Schema}
    (h : MemberRule R seen members c schemas c') :
    ∃ inner, Sequence R (members.filterMap Member.type?) c inner c' ∧
      Schema.referencesOfAll inner = Schema.referencesOfAll schemas := by
  induction h with
  | nil => exact ⟨[], .nil, rfl⟩
  | @cons _ _ _ _ _ _ schema _ _ _ _ _ _ head _ _ ih =>
      obtain ⟨inner, htail, hreferences⟩ := ih
      exact ⟨schema :: inner, .cons head htail, congrArg (schema.references ++ ·) hreferences⟩

theorem BodyRule.parts (h : BodyRule env R declaration c schema c') :
    ∃ events inner, Sequence R declaration.parts (c.note events) inner c' := by
  cases h with
  | enum values => exact ⟨_, [], .nil⟩
  | interface contents =>
      obtain ⟨inner, hparts, -⟩ := contents.parts
      exact ⟨_, inner, hparts⟩
  | typeAlias aliased =>
      refine ⟨[], [schema], ?_⟩
      rw [Context.note_nil]
      exact .cons aliased .nil

/-- What a rule does to the state. -/
inductive Course (env : Environment) (policy : Policy) (R : Account TypeExpr Schema)
    (B : Account Declaration Schema) : Account TypeExpr Schema
  | parts {type : TypeExpr} {schema : Schema} {inner : List Schema} {events : List Event}
      {c middle c' : Context} (sequence : Sequence R type.parts c inner middle)
      (ends : c' = middle.note events)
      (leads : ∀ held node, env.Below policy.aliases held (.type type) node →
        ∃ part ∈ type.parts, node = .type part) :
      Course env policy R B type c schema c'
  | definition {location : Option Location} {name : String} {arguments : List TypeExpr}
      {first : Declaration} {others : List Declaration} {events : List Event} {schema : Schema}
      {c c' : Context} (found : env.declarations name = first :: others)
      (followed : first.isFollowed policy.aliases)
      (named : NamedRule policy.mode first.qualifiedName (B first) (c.note events) schema c') :
      Course env policy R B (.reference location name arguments) c schema c'

theorem TypeRule.course (h : TypeRule env policy R B type c schema c') :
    Course env policy R B type c schema c' := by
  have hcomposite : ∀ {type : TypeExpr} {schema : Schema} {inner : List Schema} {c c' : Context},
      (∀ location name arguments, type ≠ .reference location name arguments) →
        Sequence R type.parts c inner c' → Course env policy R B type c schema c' := by
    intro type schema inner c c' hne hparts
    refine .parts hparts c'.note_nil.symm ?_
    rintro held node (mem | _)
    · exact ⟨_, mem, rfl⟩
    · exact absurd rfl (hne _ _ _)
  cases h with
  | keyword _ | literal _ => exact hcomposite (by simp) .nil
  | array inner | parenthesized inner => exact hcomposite (by simp) (.cons inner .nil)
  | union inner | intersection inner | tuple inner => exact hcomposite (by simp) inner
  | object inner =>
      obtain ⟨schemas, hparts, -⟩ := inner.parts
      exact hcomposite (by simp) hparts
  | reference inner =>
      cases inner with
      | member found value ends =>
          rw [Context.note_note, Context.note_note] at ends
          refine .parts .nil ends ?_
          rintro held node (mem | ⟨found', followed, -⟩)
          · cases mem
          · obtain ⟨rfl, -⟩ := List.cons.inj (found.symm.trans found')
            simp [Declaration.isFollowed] at followed
      | definition found followed named =>
          rw [Context.note_note] at named
          exact .definition found followed named

/-- **Rule induction with known facts.** What is known of every successful resolution may be used
for the parts. -/
theorem rule_induction_with {Q P : Account TypeExpr Schema}
    (known : ∀ {budget type c schema c'},
      typeWithin env policy budget type c = .ok schema c' → Q type c schema c')
    (keeps : ∀ type c schema c',
      TypeRule env policy (fun type c schema c' => Q type c schema c' ∧ P type c schema c')
        (BodyRule env fun type c schema c' => Q type c schema c' ∧ P type c schema c') type c schema
          c' → P type c schema c')
    {budget : Nat} (h : typeWithin env policy budget type c = .ok schema c') :
    P type c schema c' := by
  induction budget generalizing type c schema c' with
  | zero => exact absurd h typeWithin_zero_ne_ok
  | succ budget ih =>
      refine keeps _ _ _ _ (TypeRule.mono ?_ ?_ (typeWithin_succ_eq_ok_iff.mp h))
      · exact fun _ _ _ _ hrun => ⟨known hrun, ih hrun⟩
      · exact fun _ _ _ _ => BodyRule.mono fun _ _ _ _ hrun => ⟨known hrun, ih hrun⟩

end Resolve

/-! ### Where additions to the state come from -/

namespace Context

@[simp]
theorem defined_define (c : Context) (name : String) (schema : Schema) :
    (c.define name schema).defined = c.defined ++ [name] := by
  simp [defined]

/-- What the resolution of the given node adds to a state. -/
structure Grows (env : Environment) (policy : Policy) (node : Node) (c c' : Context) : Prop where
  resolving_eq : c'.resolving = c.resolving
  recursive_subset : c.recursive ⊆ c'.recursive
  defined : ∀ name ∈ c'.defined,
    name ∈ c.defined ∨ env.LeadsTo policy.aliases c.resolving node name
  recursive : ∀ name ∈ c'.recursive, name ∈ c.recursive ∨
    ∃ declaration : Declaration, env.IsFirst declaration ∧ declaration.qualifiedName = name ∧
      Relation.TransGen (env.Below policy.aliases []) node (.declaration declaration) ∧
        (name ∈ c.resolving ∨ env.IsRecursive policy.aliases declaration)
  forced : policy.mode = .expand → ∀ name ∈ c'.defined, name ∈ c.defined ∨ name ∈ c'.recursive

namespace Grows

variable {env : Environment} {policy : Policy} {node node' : Node} {c middle c' : Context}

theorem refl (c : Context) : Grows env policy node c c :=
  ⟨rfl, List.Subset.refl _, fun _ => .inl, fun _ => .inl, fun _ _ => .inl⟩

theorem note (events : List Event) : Grows env policy node c (c.note events) :=
  ⟨rfl, List.Subset.refl _, fun _ => .inl, fun _ => .inl, fun _ _ => .inl⟩

theorem trans (first : Grows env policy node c middle) (second : Grows env policy node middle c') :
    Grows env policy node c c' where
  resolving_eq := second.resolving_eq.trans first.resolving_eq
  recursive_subset := List.Subset.trans first.recursive_subset second.recursive_subset
  defined := by
    intro name hname
    obtain hname | hleads := second.defined name hname
    · exact first.defined name hname
    · exact .inr (first.resolving_eq ▸ hleads)
  recursive := by
    intro name hname
    obtain hname | hreached := second.recursive name hname
    · exact first.recursive name hname
    · exact .inr (first.resolving_eq ▸ hreached)
  forced := by
    intro hmode name hname
    obtain hname | hname := second.forced hmode name hname
    · exact (first.forced hmode name hname).imp_right fun h => second.recursive_subset h
    · exact .inr hname

/-- What the resolution of an inner node adds is reached from outside as well. -/
theorem of_reaches (h : Grows env policy node' c c')
    (hreaches : env.Reaches policy.aliases c.resolving node node') :
    Grows env policy node c c' where
  resolving_eq := h.resolving_eq
  recursive_subset := h.recursive_subset
  defined := fun name hname => (h.defined name hname).imp_right (.of_reaches hreaches)
  recursive := by
    intro name hname
    obtain hname | ⟨declaration, hfirst, hdeclaration, hpath, hwhy⟩ := h.recursive name hname
    · exact .inl hname
    · have hopen := hreaches.of_subset (List.nil_subset c.resolving)
      exact .inr ⟨declaration, hfirst, hdeclaration, .trans_right hopen hpath, hwhy⟩
  forced := h.forced

/-- What stands below a declaration while it is open, seen from a node that leads to it. A
declaration that is reached again below itself is recursive. -/
theorem leave {first : Declaration} {after : Context} (hfirst : env.IsFirst first)
    (hstep : ∀ held, first.qualifiedName ∉ held →
      env.Below policy.aliases held node (.declaration first))
    (fresh : first.qualifiedName ∉ c.resolving)
    (h : Grows env policy (.declaration first) (c.enter first.qualifiedName) after) :
    Grows env policy node c after.leave where
  resolving_eq := by
    rw [Context.leave_resolving, h.resolving_eq, Context.enter_resolving, List.tail_cons]
  recursive_subset := h.recursive_subset
  defined := by
    intro name hname
    obtain hname | ⟨declaration, hdeclaration, hreaches⟩ := h.defined name hname
    · exact .inl hname
    · refine .inr ⟨declaration, hdeclaration, .head (hstep _ fresh) ?_⟩
      exact hreaches.of_subset (List.subset_cons_self _ _)
  recursive := by
    intro name hname
    obtain hname | ⟨declaration, hdeclaration, hsame, hpath, hwhy⟩ := h.recursive name hname
    · exact .inl hname
    · refine .inr ⟨declaration, hdeclaration, hsame, .head (hstep [] (by simp)) hpath, ?_⟩
      obtain hopen | hrecursive := hwhy
      · obtain rfl | hopen := List.mem_cons.mp hopen
        · obtain rfl := hdeclaration.eq hfirst hsame
          exact .inr hpath
        · exact .inl hopen
      · exact .inr hrecursive
  forced := h.forced

/-- A definition is added for a declaration that is one step below. -/
theorem define {first : Declaration} {schema : Schema}
    (hstep : env.Below policy.aliases c.resolving node (.declaration first))
    (hmarked : policy.mode = .expand → first.qualifiedName ∈ c'.recursive)
    (h : Grows env policy node c c') :
    Grows env policy node c (c'.define first.qualifiedName schema) where
  resolving_eq := h.resolving_eq
  recursive_subset := h.recursive_subset
  defined := by
    intro name hname
    rw [defined_define, List.mem_append, List.mem_singleton] at hname
    obtain hname | rfl := hname
    · exact h.defined name hname
    · exact .inr ⟨first, rfl, .single hstep⟩
  recursive := h.recursive
  forced := by
    intro hmode name hname
    rw [defined_define, List.mem_append, List.mem_singleton] at hname
    obtain hname | rfl := hname
    · exact h.forced hmode name hname
    · exact .inr (hmarked hmode)

end Grows

end Context

namespace Resolve

open Context

variable {env : Environment} {policy : Policy} {c c' : Context} {schema : Schema} {name : String}
  {first : Declaration} {others : List Declaration} {type : TypeExpr} {node : Node}

theorem sequence_grows {types : List TypeExpr} {schemas : List Schema}
    (h : Sequence (fun type c _ c' => Grows env policy (.type type) c c') types c schemas c')
    (hbelow : ∀ type ∈ types, ∀ held, env.Below policy.aliases held node (.type type)) :
    Grows env policy node c c' := by
  induction h with
  | nil => exact .refl _
  | cons head _ ih =>
      have hfirst := head.of_reaches (.single (hbelow _ List.mem_cons_self _))
      exact hfirst.trans (ih fun type htype => hbelow type (List.mem_cons_of_mem _ htype))

theorem bodyRule_grows
    (h : BodyRule env (fun type c _ c' => Grows env policy (.type type) c c') first c schema c') :
    Grows env policy (.declaration first) c c' := by
  obtain ⟨events, schemas, hparts⟩ := h.parts
  exact .trans (.note events) (sequence_grows hparts fun _ hpart _ => .body hpart)

theorem namedRule_grows (named : env.WellNamed) {location : Option Location}
    {arguments : List TypeExpr} (found : env.declarations name = first :: others)
    (followed : first.isFollowed policy.aliases)
    (h : NamedRule policy.mode first.qualifiedName
      (BodyRule env (fun type c _ c' => Grows env policy (.type type) c c') first) c schema c') :
    Grows env policy (.type (.reference location name arguments)) c c' := by
  have hstep : ∀ held, first.qualifiedName ∉ held → env.Below policy.aliases held
      (.type (.reference location name arguments)) (.declaration first) :=
    fun held fresh => .definition found followed fresh
  have hfirst : env.IsFirst first := named.isFirst found
  cases h with
  | finished _ => exact .refl c
  | reentered _ entered =>
      refine ⟨rfl, List.subset_cons_self _ _, fun _ => .inl, ?_, fun _ _ => .inl⟩
      intro other hother
      obtain rfl | hother := List.mem_cons.mp hother
      · exact .inr ⟨first, hfirst, rfl, .single (hstep [] (by simp)), .inl entered⟩
      · exact .inl hother
  | recorded _ fresh resolved kept =>
      have hleft := (bodyRule_grows resolved).leave hfirst hstep fresh
      exact .define (hstep _ fresh) (fun hmode => kept.resolve_left (by simp [hmode]))
        (hleft.trans (.note _))
  | inlined _ fresh resolved _ => exact (bodyRule_grows resolved).leave hfirst hstep fresh

/-- **Additions are reached.** Every successful resolution leaves the open declarations as they
were, and what it adds to the table and to the marks is reached from the type expression. -/
theorem typeWithin_grows (named : env.WellNamed) {budget : Nat}
    (h : typeWithin env policy budget type c = .ok schema c') :
    Grows env policy (.type type) c c' := by
  refine rule_induction (P := fun type c _ c' => Grows env policy (.type type) c c') ?_ h
  intro type c schema c' hrule
  cases hrule.course with
  | parts sequence ends _ =>
      subst ends
      exact (sequence_grows sequence fun _ hpart _ => .part hpart).trans (.note _)
  | definition found followed inner =>
      exact .trans (.note _) (namedRule_grows named found followed inner)

theorem declaration_grows (named : env.WellNamed) {budget : Nat}
    (h : declaration env (typeWithin env policy budget) first c = .ok schema c') :
    Grows env policy (.declaration first) c c' :=
  bodyRule_grows ((declaration_eq_ok_iff.mp h).mono fun _ _ _ _ hrun => typeWithin_grows named hrun)

end Resolve

end TypeSchema
