import Mathlib.Data.List.Nodup
import TypeSchema.Proofs.Basic
import TypeSchema.Proofs.Resolution.Success
import TypeSchema.Schema.References

/-!
# Models are closed

Every reference in a model names a definition of the model. A reference to an open declaration is
made long before its definition is added, and in `expand` mode the definition is added only if the
declaration was met again. The invariant below carries that: a name that is mentioned anywhere is
defined, or is being resolved and was met again, so it is defined when its declaration is left.
-/

namespace TypeSchema

namespace Context

/-- The names of the finished definitions. -/
def defined (c : Context) : List String := c.deps.map Prod.fst

/-- A name may be mentioned when it is defined, or open and already met again. Names in `held` are
open from the outside and may be mentioned as well. -/
def Known (held : List String) (c : Context) (name : String) : Prop :=
  name ∈ c.defined ∨ name ∈ held ∨ (name ∈ c.resolving ∧ name ∈ c.recursive)

/-- The invariant of a resolution: open declarations are distinct and not yet defined, what was met
again is open or defined, and definitions mention known names only. -/
structure Coherent (held : List String) (c : Context) : Prop where
  resolving_nodup : c.resolving.Nodup
  defined_nodup : c.defined.Nodup
  unfinished : ∀ name ∈ c.resolving, name ∉ c.defined
  recursive_known : ∀ name ∈ c.recursive, name ∈ c.resolving ∨ name ∈ c.defined
  held_open : ∀ name ∈ held, name ∈ c.resolving
  closed : ∀ entry ∈ c.deps, ∀ name ∈ entry.2.references, c.Known held name

/-- What a resolution does to a state: it leaves the open declarations as they were, adds
definitions behind the ones there are and forgets no name that was met again. -/
structure Extends (c c' : Context) : Prop where
  resolving_eq : c'.resolving = c.resolving
  deps_extended : c.deps <+: c'.deps
  recursive_subset : c.recursive ⊆ c'.recursive

variable {held : List String} {c middle after c' : Context} {name : String}

theorem coherent_empty : Coherent [] {} := by
  constructor <;> simp [defined]

theorem Extends.refl (c : Context) : c.Extends c :=
  ⟨rfl, List.prefix_rfl, List.Subset.refl _⟩

theorem Extends.trans (first : c.Extends middle) (second : middle.Extends c') : c.Extends c' where
  resolving_eq := second.resolving_eq.trans first.resolving_eq
  deps_extended := first.deps_extended.trans second.deps_extended
  recursive_subset := List.Subset.trans first.recursive_subset second.recursive_subset

/-- What is entered is on top of the stack when it is left. -/
theorem Extends.leave (h : (c.enter name).Extends after) : c.Extends after.leave where
  resolving_eq := by rw [leave_resolving, h.resolving_eq, enter_resolving, List.tail_cons]
  deps_extended := h.deps_extended
  recursive_subset := h.recursive_subset

theorem Extends.defined_subset (h : c.Extends c') : c.defined ⊆ c'.defined :=
  List.map_subset Prod.fst h.deps_extended.subset

theorem Extends.known (h : c.Extends c') (hknown : c.Known held name) : c'.Known held name := by
  obtain hdefined | hheld | ⟨hopen, hrecursive⟩ := hknown
  · exact .inl (h.defined_subset hdefined)
  · exact .inr (.inl hheld)
  · exact .inr (.inr ⟨h.resolving_eq ▸ hopen, h.recursive_subset hrecursive⟩)

/-- From a state, a result that mentions the given names is reached in a later state. -/
def Yields (held : List String) (c : Context) (mentioned : List String) (c' : Context) : Prop :=
  c.Extends c' ∧
    (c.Coherent held → c'.Coherent held ∧ ∀ name ∈ mentioned, c'.Known held name)

theorem Yields.refl (c : Context) : c.Yields held [] c :=
  ⟨.refl c, fun hc => ⟨hc, by simp⟩⟩

theorem Yields.append {first second : List String} (hfirst : c.Yields held first middle)
    (hsecond : middle.Yields held second c') : c.Yields held (first ++ second) c' := by
  refine ⟨hfirst.1.trans hsecond.1, fun hc => ?_⟩
  obtain ⟨hmiddle, hfirstKnown⟩ := hfirst.2 hc
  obtain ⟨hc', hsecondKnown⟩ := hsecond.2 hmiddle
  refine ⟨hc', fun name hname => ?_⟩
  obtain hname | hname := List.mem_append.mp hname
  · exact hsecond.1.known (hfirstKnown name hname)
  · exact hsecondKnown name hname

/-- Recording events changes nothing that the invariant is about. -/
theorem yields_note (c : Context) (events : List Event) :
    c.Yields held [] (c.note events) :=
  ⟨⟨rfl, List.prefix_rfl, List.Subset.refl _⟩,
    fun hc => ⟨⟨hc.resolving_nodup, hc.defined_nodup, hc.unfinished, hc.recursive_known,
      hc.held_open, hc.closed⟩, by simp⟩⟩

/-- An open declaration is marked and may be mentioned from then on. -/
theorem yields_mark (hopen : name ∈ c.resolving) : c.Yields held [name] (c.mark name) := by
  have hextends : c.Extends (c.mark name) :=
    ⟨rfl, List.prefix_rfl, List.subset_cons_self name c.recursive⟩
  refine ⟨hextends, fun hc => ⟨⟨hc.resolving_nodup, hc.defined_nodup, hc.unfinished, ?_,
    hc.held_open, fun entry hentry other hother => hextends.known (hc.closed entry hentry other
      hother)⟩, ?_⟩⟩
  · intro other hother
    obtain rfl | hother := List.mem_cons.mp hother
    · exact .inl hopen
    · exact hc.recursive_known other hother
  · intro other hother
    obtain rfl := List.mem_singleton.mp hother
    exact .inr (.inr ⟨hopen, List.mem_cons_self⟩)

theorem Coherent.enter (hc : c.Coherent held) (hmissing : name ∉ c.defined)
    (hfresh : name ∉ c.resolving) : (c.enter name).Coherent held where
  resolving_nodup := List.nodup_cons.mpr ⟨hfresh, hc.resolving_nodup⟩
  defined_nodup := hc.defined_nodup
  unfinished := by
    intro other hother
    obtain rfl | hother := List.mem_cons.mp hother
    · exact hmissing
    · exact hc.unfinished other hother
  recursive_known := by
    intro other hother
    exact (hc.recursive_known other hother).imp_left (List.mem_cons_of_mem name)
  held_open := fun other hother => List.mem_cons_of_mem name (hc.held_open other hother)
  closed := by
    intro entry hentry other hother
    exact (hc.closed entry hentry other hother).imp_right
      (Or.imp_right (And.imp_left (List.mem_cons_of_mem name)))

end Context

namespace Resolve

open Context

variable {env : Environment} {policy : Policy} {held : List String} {c c' after : Context}
  {name : String} {schema : Schema}

/-- Leaving a declaration that was met again adds it to the definitions, so every mention of it is
covered from then on. -/
theorem yields_recorded (hmissing : name ∉ c.defined) (hfresh : name ∉ c.resolving)
    (hbody : (c.enter name).Yields held schema.references after) :
    c.Yields held (name :: schema.references)
      ((after.leave.note [.definitionAdded name]).define name schema) := by
  set final := (after.leave.note [.definitionAdded name]).define name schema
  have hdefined : final.defined = after.defined ++ [name] := by simp [final, Context.defined]
  have hopen : after.resolving = name :: c.resolving := hbody.1.resolving_eq
  have hleft : final.resolving = c.resolving := hbody.1.leave.resolving_eq
  refine ⟨⟨hleft, hbody.1.deps_extended.trans (List.prefix_append _ _), hbody.1.recursive_subset⟩,
    fun hc => ?_⟩
  obtain ⟨hafter, hknown⟩ := hbody.2 (hc.enter hmissing hfresh)
  have hunfinished : name ∉ after.defined := hafter.unfinished name (by simp [hopen])
  have hlift : ∀ other, after.Known held other → final.Known held other := by
    intro other hother
    obtain hother | hother | ⟨hother, hrecursive⟩ := hother
    · exact .inl (by simp [hdefined, hother])
    · exact .inr (.inl hother)
    · rw [hopen] at hother
      obtain rfl | hother := List.mem_cons.mp hother
      · exact .inl (by simp [hdefined])
      · exact .inr (.inr ⟨hleft ▸ hother, hrecursive⟩)
  refine ⟨⟨hleft ▸ hc.resolving_nodup, ?_, ?_, ?_, hleft ▸ hc.held_open, ?_⟩, ?_⟩
  · rw [hdefined]
    exact List.Nodup.append hafter.defined_nodup (List.nodup_singleton name)
      (by simpa using hunfinished)
  · intro other hother
    rw [hleft] at hother
    have hne : other ≠ name := fun heq => hfresh (heq ▸ hother)
    have hother' : other ∉ after.defined :=
      hafter.unfinished other (hopen ▸ List.mem_cons_of_mem name hother)
    simp [hdefined, hne, hother']
  · intro other hother
    obtain hresolving | hother := hafter.recursive_known other hother
    · rw [hopen] at hresolving
      obtain rfl | hresolving := List.mem_cons.mp hresolving
      · exact .inr (by simp [hdefined])
      · exact .inl (hleft ▸ hresolving)
    · exact .inr (by simp [hdefined, hother])
  · intro entry hentry other hother
    obtain hentry | hentry := List.mem_append.mp hentry
    · exact hlift other (hafter.closed entry hentry other hother)
    · obtain rfl := List.mem_singleton.mp hentry
      exact hlift other (hknown other hother)
  · intro other hother
    obtain rfl | hother := List.mem_cons.mp hother
    · exact .inl (by simp [hdefined])
    · exact hlift other (hknown other hother)

/-- Leaving a declaration that was not met again leaves no mention of it behind. -/
theorem yields_inlined (hmissing : name ∉ c.defined) (hfresh : name ∉ c.resolving)
    (hdropped : name ∉ after.recursive)
    (hbody : (c.enter name).Yields held schema.references after) :
    c.Yields held schema.references after.leave := by
  have hopen : after.resolving = name :: c.resolving := hbody.1.resolving_eq
  have hleft : after.leave.resolving = c.resolving := hbody.1.leave.resolving_eq
  refine ⟨hbody.1.leave, fun hc => ?_⟩
  obtain ⟨hafter, hknown⟩ := hbody.2 (hc.enter hmissing hfresh)
  have hlift : ∀ other, after.Known held other → after.leave.Known held other := by
    intro other hother
    obtain hother | hother | ⟨hother, hrecursive⟩ := hother
    · exact .inl hother
    · exact .inr (.inl hother)
    · rw [hopen] at hother
      obtain rfl | hother := List.mem_cons.mp hother
      · exact absurd hrecursive hdropped
      · exact .inr (.inr ⟨hleft ▸ hother, hrecursive⟩)
  refine ⟨⟨hleft ▸ hc.resolving_nodup, hafter.defined_nodup, ?_, ?_, hleft ▸ hc.held_open, ?_⟩, ?_⟩
  · intro other hother
    rw [hleft] at hother
    exact hafter.unfinished other (hopen ▸ List.mem_cons_of_mem name hother)
  · intro other hother
    obtain hresolving | hdefined := hafter.recursive_known other hother
    · rw [hopen] at hresolving
      obtain rfl | hresolving := List.mem_cons.mp hresolving
      · exact absurd hother hdropped
      · exact .inl (hleft ▸ hresolving)
    · exact .inr hdefined
  · exact fun entry hentry other hother => hlift other (hafter.closed entry hentry other hother)
  · exact fun other hother => hlift other (hknown other hother)

theorem sequence_yields {α : Type} {xs : List α} {schemas : List Schema}
    (h : Sequence (fun _ c schema c' => c.Yields held schema.references c') xs c schemas c') :
    c.Yields held (Schema.referencesOfAll schemas) c' := by
  induction h with
  | nil => exact .refl _
  | cons head _ ih => exact head.append ih

theorem memberRule_yields {seen : List String} {members : List Member} {schemas : List Schema}
    (h : MemberRule (fun _ c schema c' => c.Yields held schema.references c') seen members c
      schemas c') :
    c.Yields held (Schema.referencesOfAll schemas) c' := by
  induction h with
  | nil => exact .refl _
  | cons _ head _ _ ih => exact head.append ih

theorem namedRule_yields {mode : ReferenceMode} {run : Context → Schema → Context → Prop}
    (hrun : ∀ c schema c', run c schema c' → c.Yields held schema.references c')
    (h : NamedRule mode name run c schema c') : c.Yields held schema.references c' := by
  cases h with
  | @finished found _ hfound =>
      have hentry : (name, found) ∈ c.deps := mem_of_lookup hfound
      refine ⟨.refl c, fun hc => ⟨hc, ?_⟩⟩
      intro other hother
      cases mode with
      | expand => exact hc.closed _ hentry other hother
      | share =>
          obtain rfl := List.mem_singleton.mp hother
          exact .inl (List.mem_map.mpr ⟨_, hentry, rfl⟩)
  | reentered hmissing hopen =>
      exact (yields_note c _).append (yields_mark hopen)
  | @recorded body _ _ hmissing hfresh hbody hkept =>
      obtain ⟨hextends, hcoherent⟩ :=
        yields_recorded (not_mem_of_lookup hmissing) hfresh (hrun _ _ _ hbody)
      refine ⟨hextends, fun hc => (hcoherent hc).imp_right fun hknown other hother => ?_⟩
      cases mode with
      | expand => exact hknown other (List.mem_cons_of_mem name hother)
      | share => exact hknown other (List.mem_singleton.mp hother ▸ List.mem_cons_self)
  | inlined hmissing hfresh hbody hdropped =>
      exact yields_inlined (not_mem_of_lookup hmissing) hfresh
        (fun hrecursive => hdropped (.inr hrecursive)) (hrun _ _ _ hbody)

theorem references_eq_nil_of_isLeaf (h : schema.isLeaf) : schema.references = [] := by
  cases schema <;> first | rfl | simp [Schema.isLeaf] at h

theorem references_eq_nil_of_member {member : EnumMember}
    (h : env.memberSchema? member = some schema) : schema.references = [] := by
  obtain ⟨text, value, -, hvalue, rfl⟩ := Environment.memberSchema?_eq_some_iff.mp h
  have hinner : value.references = [] :=
    references_eq_nil_of_isLeaf (Evaluated.isLeaf_of_literalSchema? hvalue)
  rw [Schema.references, hinner]

theorem references_eq_nil_of_members {members : List EnumMember} {schemas : List Schema}
    (h : List.Forall₂ (fun member schema => env.memberSchema? member = some schema) members
      schemas) : Schema.referencesOfAll schemas = [] := by
  induction h with
  | nil => rfl
  | cons head _ ih => rw [Schema.referencesOfAll, references_eq_nil_of_member head, ih]; rfl

theorem bodyRule_yields {declaration : Declaration}
    (h : BodyRule env (fun _ c schema c' => c.Yields held schema.references c') declaration c
      schema c') : c.Yields held schema.references c' := by
  cases h with
  | enum values =>
      rw [Schema.references, references_eq_nil_of_members values]
      exact yields_note c _
  | interface contents => exact (yields_note c _).append (memberRule_yields contents)
  | typeAlias aliased => exact aliased

theorem referenceRule_yields {arguments : List TypeExpr}
    (h : ReferenceRule env policy
      (BodyRule env fun _ c schema c' => c.Yields held schema.references c') name arguments c
      schema c') : c.Yields held schema.references c' := by
  cases h with
  | member found value ends =>
      rw [references_eq_nil_of_member value, ends]
      exact ((yields_note c _).append (yields_note _ _)).append (yields_note _ _)
  | definition found followed named =>
      exact ((yields_note c _).append (yields_note _ _)).append
        (namedRule_yields (fun _ _ _ => bodyRule_yields) named)

/-- **The invariant of resolution.** Every successful resolution extends the state that it starts
from, keeps it coherent, and mentions known names only. -/
theorem typeWithin_yields (held : List String) {budget : Nat} {type : TypeExpr}
    (h : typeWithin env policy budget type c = .ok schema c') :
    c.Yields held schema.references c' := by
  refine rule_induction (P := fun _ c schema c' => c.Yields held schema.references c') ?_ h
  intro type c schema c' hrule
  cases hrule with
  | keyword meaning =>
      rw [references_eq_nil_of_isLeaf (Keyword.isLeaf_of_schema? meaning)]
      exact .refl c
  | literal meaning =>
      rw [references_eq_nil_of_isLeaf (Environment.isLeaf_of_literalSchema? meaning)]
      exact .refl c
  | array inner | parenthesized inner => exact inner
  | union inner | intersection inner => exact sequence_yields inner
  | tuple inner =>
      have htuple := Schema.referencesOfAll_mapIdx
        (f := fun position schema => .tupleElement position schema) fun _ _ => rfl
      rw [Schema.references, htuple]
      exact sequence_yields inner
  | object inner => exact memberRule_yields inner
  | reference inner => exact referenceRule_yields inner

end Resolve

theorem resolveWithin_coherent {budget : Nat} {env : Environment} {policy : Policy}
    {type : TypeExpr} {model : Model} (h : (resolveWithin budget env policy type).1 = .ok model) :
    model.defined.Nodup ∧ model.Closed := by
  obtain ⟨c, hrun, hdeps⟩ := resolveWithin_eq_ok_iff.mp h
  obtain ⟨hextends, hcoherent⟩ := Resolve.typeWithin_yields [] hrun
  obtain ⟨hc, hroot⟩ := hcoherent Context.coherent_empty
  have hdefined : c.defined = model.defined := by rw [Context.defined, Model.defined, hdeps]
  -- nothing is open any more, so a known name is a defined one
  have hknown : ∀ name, c.Known [] name → name ∈ model.defined := by
    intro name hname
    obtain hname | hname | ⟨hname, -⟩ := hname
    · exact hdefined ▸ hname
    · cases hname
    · rw [hextends.resolving_eq] at hname
      cases hname
  refine ⟨hdefined ▸ hc.defined_nodup, fun name hname => hknown name (hroot name hname), ?_⟩
  intro entry hentry name hname
  exact hknown name (hc.closed entry (hdeps ▸ hentry) name hname)

/-- **Models are closed.** Whatever declarations there are, in either mode and with or without type
aliases, every reference anywhere under the root or under a definition names a definition. -/
theorem model_closed {budget : Nat} {declarations : List Declaration} {policy : Policy}
    {type : TypeExpr} {model : Model}
    (h : (resolveWithin budget (.ofTable (.ofList declarations)) policy type).1 = .ok model) :
    model.Closed :=
  (resolveWithin_coherent h).2

/-- Two interfaces, each with a property of the other's type. -/
def interlinked : List Declaration :=
  [.interface none "A"
    [.property none ⟨.identifier, "b", none⟩ (some (.reference none "B" [])) false] [],
   .interface none "B"
    [.property none ⟨.identifier, "a", none⟩ (some (.reference none "A" [])) true] []]

/-- Where the second is inlined into the first, it refers back to it. -/
theorem model_closed_interlinked :
    let schema := Schema.object [.member "b" false (.object [.member "a" true (.reference "A")])]
    (resolveWithin 8 (.ofTable (.ofList interlinked)) ⟨.expand, false⟩ (.reference none "A" [])).1 =
        .ok ⟨schema, [("A", schema)]⟩ ∧
      Model.Closed ⟨schema, [("A", schema)]⟩ :=
  have h : (resolveWithin 8 (.ofTable (.ofList interlinked)) ⟨.expand, false⟩
    (.reference none "A" [])).1 = .ok ⟨_, _⟩ := rfl
  ⟨h, model_closed h⟩

end TypeSchema
