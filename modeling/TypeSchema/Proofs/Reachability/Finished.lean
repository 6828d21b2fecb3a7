import TypeSchema.Proofs.Failure.Refusal
import TypeSchema.Proofs.Reachability.Course

/-!
# Finished definitions in share mode

In `share` mode every declaration that is left is defined, so a finished definition is one whose
whole surroundings were resolved: everything that it reaches without going through an open
declaration is accepted, and every declaration among it is defined. When a declaration is left, one
open declaration less stands in the way. A path from then on either avoids it or goes on from it,
and what it reaches itself was resolved just before.
-/

namespace TypeSchema

/-- The node is not refused, and if it is a declaration, it is defined. -/
def Context.Accepts (env : Environment) (aliases : Bool) (c : Context) (node : Node) : Prop :=
  (∀ fault, ¬ node.Refused env aliases fault) ∧
    ∀ declaration, node = .declaration declaration → declaration.qualifiedName ∈ c.defined

/-- Everything that the node reaches outside the open declarations is accepted. -/
def Context.Finishes (env : Environment) (aliases : Bool) (c : Context) (node : Node) : Prop :=
  ∀ inner, env.Reaches aliases c.resolving node inner → c.Accepts env aliases inner

/-- Definitions are finished, and so is everything that they reach. -/
def Context.Complete (env : Environment) (aliases : Bool) (c : Context) : Prop :=
  ∀ declaration, env.IsFirst declaration → declaration.qualifiedName ∈ c.defined →
    c.Finishes env aliases (.declaration declaration)

namespace Context

variable {env : Environment} {aliases : Bool} {c c' : Context} {node : Node} {name : String}

theorem complete_empty : Complete env aliases {} :=
  fun _ _ hdefined => by cases hdefined

theorem Accepts.of_subset (hdefined : c.defined ⊆ c'.defined) (h : c.Accepts env aliases node) :
    c'.Accepts env aliases node :=
  ⟨h.1, fun declaration heq => hdefined (h.2 declaration heq)⟩

theorem accepts_type {type : TypeExpr}
    (h : ∀ fault, ¬ (Node.type type).Refused env aliases fault) :
    c.Accepts env aliases (.type type) :=
  ⟨h, by simp⟩

theorem Finishes.of_extends (hextends : c.Extends c') (h : c.Finishes env aliases node) :
    c'.Finishes env aliases node := by
  intro inner hinner
  exact (h inner (hextends.resolving_eq ▸ hinner)).of_subset hextends.defined_subset

/-- A node finishes when it is accepted itself and everything one step below finishes. -/
theorem Finishes.of_below (haccepts : c.Accepts env aliases node)
    (hbelow : ∀ inner, env.Below aliases c.resolving node inner → c.Finishes env aliases inner) :
    c.Finishes env aliases node := by
  intro inner hinner
  obtain rfl | ⟨middle, hstep, hrest⟩ := hinner.cases_head
  · exact haccepts
  · exact hbelow middle hstep inner hrest

theorem Complete.enter (h : c.Complete env aliases) : (c.enter name).Complete env aliases := by
  intro declaration hfirst hdefined inner hinner
  exact h declaration hfirst hdefined inner (hinner.of_subset (List.subset_cons_self _ _))

theorem mem_defined_of_lookup {schema : Schema} (h : c.deps.lookup name = some schema) :
    name ∈ c.defined :=
  List.mem_map.mpr ⟨_, mem_of_lookup h, rfl⟩

/-- When a declaration is left and defined, everything that it reaches is finished, and so the
definitions from before stay complete without it being open. -/
theorem Complete.leave {first : Declaration} {after : Context} (named : env.WellNamed)
    (hfirst : env.IsFirst first)
    (haccepted : ∀ fault, ¬ (Node.declaration first).Refused env aliases fault)
    (hopen : after.resolving = first.qualifiedName :: c.resolving)
    (hdefined : c.defined = after.defined ++ [first.qualifiedName])
    (hafter : after.Complete env aliases)
    (hparts : ∀ part ∈ first.parts, after.Finishes env aliases (.type part)) :
    c.Complete env aliases ∧ c.Finishes env aliases (.declaration first) := by
  have hsubset : after.defined ⊆ c.defined := by simp [hdefined]
  -- what can be reached while the declaration is open
  have hbefore : ∀ {node : Node}, after.Finishes env aliases node → ∀ inner,
      env.Reaches aliases (first.qualifiedName :: c.resolving) node inner →
        c.Accepts env aliases inner :=
    fun hfinishes inner hinner => (hfinishes inner (hopen ▸ hinner)).of_subset hsubset
  have hself : ∀ inner,
      env.Reaches aliases (first.qualifiedName :: c.resolving) (.declaration first) inner →
        c.Accepts env aliases inner := by
    intro inner hinner
    obtain rfl | ⟨middle, hstep, hrest⟩ := hinner.cases_head
    · refine ⟨haccepted, ?_⟩
      rintro declaration ⟨⟩
      simp [hdefined]
    · cases hstep with
      | body mem => exact hbefore (hparts _ mem) inner hrest
  have hleft : c.Finishes env aliases (.declaration first) := by
    intro inner hinner
    obtain hinner | hinner := Environment.reaches_or_reaches_of_isFirst named hfirst hinner
    · exact hself inner hinner
    · exact hself inner hinner
  refine ⟨?_, hleft⟩
  intro declaration hdeclaration hmem
  rw [hdefined, List.mem_append, List.mem_singleton] at hmem
  obtain hmem | hname := hmem
  · intro inner hinner
    obtain hinner | hinner := Environment.reaches_or_reaches_of_isFirst named hfirst hinner
    · exact hbefore (hafter declaration hdeclaration hmem) inner hinner
    · exact hself inner hinner
  · obtain rfl := hdeclaration.eq hfirst hname
    exact hleft

end Context

namespace Resolve

open Context

variable {env : Environment} {aliases : Bool} {c c' : Context} {schema : Schema} {name : String}
  {first : Declaration} {others : List Declaration} {type : TypeExpr}

/-- A resolution that starts where definitions are complete leaves them complete, and finishes what
it resolves. -/
def Completes (env : Environment) (aliases : Bool) (type : TypeExpr) (c : Context) (_ : Schema)
    (c' : Context) : Prop :=
  c.Complete env aliases → c'.Complete env aliases ∧ c'.Finishes env aliases (.type type)

/-- What is known of the parts of a rule. -/
abbrev Part (env : Environment) (aliases : Bool) (type : TypeExpr) (c : Context) (schema : Schema)
    (c' : Context) : Prop :=
  c.Yields [] schema.references c' ∧ Completes env aliases type c schema c'

theorem sequence_completes {types : List TypeExpr} {schemas : List Schema}
    (h : Sequence (Part env aliases) types c schemas c') (hc : c.Complete env aliases) :
    c.Extends c' ∧ c'.Complete env aliases ∧
      ∀ type ∈ types, c'.Finishes env aliases (.type type) := by
  induction h with
  | nil => exact ⟨.refl _, hc, by simp⟩
  | cons head _ ih =>
      obtain ⟨hmiddle, hfinishes⟩ := head.2 hc
      obtain ⟨hextends, hc', hrest⟩ := ih hmiddle
      refine ⟨head.1.1.trans hextends, hc', ?_⟩
      intro type htype
      obtain rfl | htype := List.mem_cons.mp htype
      · exact hfinishes.of_extends hextends
      · exact hrest type htype

theorem bodyRule_extends (h : BodyRule env (Part env aliases) first c schema c') : c.Extends c' :=
  (bodyRule_yields (h.mono fun _ _ _ _ hpart => hpart.1)).1

theorem bodyRule_completes (h : BodyRule env (Part env aliases) first c schema c')
    (hc : c.Complete env aliases) :
    c'.Complete env aliases ∧ ∀ part ∈ first.parts, c'.Finishes env aliases (.type part) := by
  obtain ⟨events, schemas, hparts⟩ := h.parts
  exact (sequence_completes hparts hc).2

theorem namedRule_completes (named : env.WellNamed) (hfirst : env.IsFirst first)
    (h : NamedRule .share first.qualifiedName (BodyRule env (Part env aliases) first) c schema c')
    (hc : c.Complete env aliases) :
    c'.Complete env aliases ∧
      (first.qualifiedName ∉ c'.resolving → c'.Finishes env aliases (.declaration first)) := by
  cases h with
  | finished found => exact ⟨hc, fun _ => hc first hfirst (mem_defined_of_lookup found)⟩
  | reentered _ entered => exact ⟨hc, fun hfresh => absurd entered hfresh⟩
  | @recorded schema _ after _ _ resolved _ =>
      set final := (after.leave.note [.definitionAdded first.qualifiedName]).define
        first.qualifiedName schema
      have hextends := bodyRule_extends resolved
      have hleft : final.resolving = c.resolving := hextends.leave.resolving_eq
      have hopen : after.resolving = first.qualifiedName :: final.resolving := by
        rw [hleft, hextends.resolving_eq, enter_resolving]
      have hdefined : final.defined = after.defined ++ [first.qualifiedName] := defined_define _ _ _
      obtain ⟨hafter, hparts⟩ := bodyRule_completes resolved hc.enter
      have haccepted : ∀ fault, ¬ (Node.declaration first).Refused env aliases fault :=
        fun fault => not_refused_of_bodyRule resolved
      obtain ⟨hcomplete, hfinishes⟩ :=
        Complete.leave named hfirst haccepted hopen hdefined hafter hparts
      exact ⟨hcomplete, fun _ => hfinishes⟩
  | inlined _ _ _ dropped => simp at dropped

theorem part_of_typeWithin {budget : Nat} (named : env.WellNamed)
    (h : typeWithin env ⟨.share, aliases⟩ budget type c = .ok schema c') :
    Part env aliases type c schema c' := by
  refine ⟨typeWithin_yields [] h, ?_⟩
  refine rule_induction_with (typeWithin_yields []) ?_ h
  intro type c schema c' hrule hc
  have haccepts : ∀ after : Context, after.Accepts env aliases (.type type) := fun after =>
    accepts_type fun fault => not_refused_of_typeRule hrule
  cases hrule.course with
  | parts sequence ends leads =>
      subst ends
      obtain ⟨-, hmiddle, hparts⟩ := sequence_completes sequence hc
      refine ⟨hmiddle, .of_below (haccepts _) ?_⟩
      intro inner hstep
      obtain ⟨part, hpart, rfl⟩ := leads _ _ hstep
      exact hparts part hpart
  | definition found followed inner =>
      obtain ⟨hc', hfinishes⟩ := namedRule_completes named (named.isFirst found) inner hc
      refine ⟨hc', .of_below (haccepts _) ?_⟩
      rintro _ (mem | ⟨found', -, fresh⟩)
      · cases mem
      · obtain ⟨rfl, -⟩ := List.cons.inj (found.symm.trans found')
        exact hfinishes fresh

/-- **Everything reached is finished.** A successful resolution in `share` mode keeps definitions
complete; behind it everything that the type expression reaches outside the open declarations is
accepted, and every declaration among it is defined. -/
theorem typeWithin_completes {budget : Nat} (named : env.WellNamed)
    (h : typeWithin env ⟨.share, aliases⟩ budget type c = .ok schema c')
    (hc : c.Complete env aliases) :
    c'.Complete env aliases ∧ c'.Finishes env aliases (.type type) :=
  (part_of_typeWithin named h).2 hc

theorem named_completes {budget : Nat} (named : env.WellNamed) (hfirst : env.IsFirst first)
    (h : Resolve.named .share first.qualifiedName
      (declaration env (typeWithin env ⟨.share, aliases⟩ budget) first) c = .ok schema c')
    (hc : c.Complete env aliases) : c'.Complete env aliases := by
  refine (namedRule_completes named hfirst ((named_eq_ok_iff.mp h).mono ?_) hc).1
  intro c schema c' hrun
  exact (declaration_eq_ok_iff.mp hrun).mono fun _ _ _ _ hpart => part_of_typeWithin named hpart

end Resolve

end TypeSchema
