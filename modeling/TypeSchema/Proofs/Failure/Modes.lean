import TypeSchema.Limits
import TypeSchema.Proofs.Failure.Origin
import TypeSchema.Proofs.Reachability.Finished
import TypeSchema.Proofs.Resolution.Termination

/-!
# Both modes fail alike

In `share` mode the body of a declaration is resolved once; in `expand` mode it is resolved again
wherever it was not recorded. Run side by side, the table of the `share` run holds at least the
definitions of the `expand` run. So when only the `expand` run has to enter a declaration, the
`share` run has finished it before, and everything in it was accepted: there the `expand` run can
find no fault, only run out of depth. Everywhere else both runs do the same.
-/

namespace TypeSchema

open Resolve

/-- An `expand` run and a `share` run with the same open declarations. -/
structure SideBySide (env : Environment) (aliases : Bool) (names : List String)
    (expanding sharing : Context) : Prop where
  expanding_open : expanding.resolving = names
  sharing_open : sharing.resolving = names
  defined_subset : expanding.defined ⊆ sharing.defined
  unfinished : ∀ name ∈ names, name ∉ sharing.defined
  complete : sharing.Complete env aliases

/-- Both runs may end with any fault; the `expand` run may run out of depth by itself. -/
def Comparison.modes (env : Environment) (aliases : Bool) (names : List String) : Comparison where
  paired := SideBySide env aliases names
  allowed _ := True
  waived reason := reason = .depthExceeded
  note _ h := ⟨h.expanding_open, h.sharing_open, h.defined_subset, h.unfinished, h.complete⟩

section Modes

variable {env : Environment} {aliases : Bool} {names : List String} {c d : Context} {budget : Nat}
  {first : Declaration} {type : TypeExpr}

/-- The body of a declaration in the given mode. -/
abbrev bodyWithin (env : Environment) (mode : ReferenceMode) (aliases : Bool) (budget : Nat)
    (first : Declaration) : Resolve Schema :=
  declaration env (typeWithin env ⟨mode, aliases⟩ budget) first

theorem SideBySide.enter {name : String} (h : SideBySide env aliases names c d)
    (missing : name ∉ d.defined) :
    SideBySide env aliases (name :: names) (c.enter name) (d.enter name) where
  expanding_open := by rw [Context.enter_resolving, h.expanding_open]
  sharing_open := by rw [Context.enter_resolving, h.sharing_open]
  defined_subset := h.defined_subset
  unfinished := by
    intro other hother
    obtain rfl | hother := List.mem_cons.mp hother
    · exact missing
    · exact h.unfinished other hother
  complete := h.complete.enter

/-- Both runs leave a declaration that both have entered; the `share` run has defined it. -/
theorem SideBySide.leave {name : String} {after after' c' d' : Context}
    (h : SideBySide env aliases (name :: names) after after') (fresh : name ∉ names)
    (hopen : c'.resolving = after.resolving.tail) (hopen' : d'.resolving = after'.resolving.tail)
    (hadded : c'.defined = after.defined ++ [name] ∨ c'.defined = after.defined)
    (hadded' : d'.defined = after'.defined ++ [name]) (complete : d'.Complete env aliases) :
    SideBySide env aliases names c' d' where
  expanding_open := by rw [hopen, h.expanding_open, List.tail_cons]
  sharing_open := by rw [hopen', h.sharing_open, List.tail_cons]
  defined_subset := by
    have hkept : after.defined ⊆ after'.defined ++ [name] :=
      List.Subset.trans h.defined_subset (List.subset_append_left _ _)
    rw [hadded']
    obtain hadded | hadded := hadded
    · rw [hadded]
      exact List.append_subset.mpr ⟨hkept, List.subset_append_right _ _⟩
    · rw [hadded]
      exact hkept
  unfinished := by
    intro other hother
    have hne : other ≠ name := fun heq => fresh (heq ▸ hother)
    simp [hadded', hne, h.unfinished other (List.mem_cons_of_mem _ hother)]
  complete := complete

/-- Where the `share` run has finished a declaration, the `expand` run finds no fault in it and adds
no definition that the `share` run does not have. -/
theorem alike_of_finished (named : env.WellNamed) (hpaired : SideBySide env aliases names c d)
    (hfirst : env.IsFirst first) (followed : first.isFollowed aliases)
    (hdefined : first.qualifiedName ∈ d.defined)
    (missing : c.deps.lookup first.qualifiedName = none) (schema : Schema) :
    (Comparison.modes env aliases names).Alike Comparison.anyhow
      (Resolve.named .expand first.qualifiedName (bodyWithin env .expand aliases budget first) c)
      (.ok schema d) := by
  have hfresh : first.qualifiedName ∉ c.resolving := by
    rw [hpaired.expanding_open]
    exact fun hopen => hpaired.unfinished _ hopen hdefined
  -- whatever the body reaches, the `share` run has accepted
  have haccepts : ∀ inner, env.Reaches aliases (c.enter first.qualifiedName).resolving
      (.declaration first) inner → d.Accepts env aliases inner := by
    intro inner hinner
    apply hpaired.complete first hfirst hdefined inner
    rw [hpaired.sharing_open, ← hpaired.expanding_open]
    exact hinner.of_subset (List.subset_cons_self _ _)
  cases hrun : bodyWithin env .expand aliases budget first (c.enter first.qualifiedName) with
  | error reason after =>
      rw [named_of_error missing hfresh hrun]
      cases reason with
      | depthExceeded => exact .waived rfl
      | fault fault =>
          obtain ⟨inner, hinner, hrefused⟩ := faulty_of_body_error followed hrun
          exact absurd hrefused ((haccepts inner hinner).1 fault)
  | ok result after =>
      obtain ⟨result, c', hnamed, hleft, hadded⟩ := named_of_body .expand missing hfresh hrun
      have hgrows := declaration_grows named hrun
      have hopen : c'.resolving = c.resolving := by
        rw [hleft, hgrows.resolving_eq, Context.enter_resolving, List.tail_cons]
      have hafter : after.defined ⊆ d.defined := by
        intro name hname
        obtain hname | ⟨declaration, rfl, hreaches⟩ := hgrows.defined name hname
        · exact hpaired.defined_subset hname
        · exact (haccepts _ hreaches).2 declaration rfl
      have hsubset : c'.defined ⊆ d.defined := by
        obtain hadded | ⟨-, hadded⟩ := hadded
        · rw [hadded]
          exact List.append_subset.mpr ⟨hafter, by simpa using hdefined⟩
        · rw [hadded]
          exact hafter
      rw [hnamed]
      exact .ok trivial ⟨hopen.trans hpaired.expanding_open, hpaired.sharing_open, hsubset,
        hpaired.unfinished, hpaired.complete⟩

/-- Where neither run has finished a declaration and it is not open, both enter it. -/
theorem alike_of_fresh (named : env.WellNamed) (hpaired : SideBySide env aliases names c d)
    (hfirst : env.IsFirst first) (missing : c.deps.lookup first.qualifiedName = none)
    (missing' : d.deps.lookup first.qualifiedName = none) (fresh : first.qualifiedName ∉ names)
    (hbody : (Comparison.modes env aliases (first.qualifiedName :: names)).Relates Comparison.anyhow
      (bodyWithin env .expand aliases budget first) (bodyWithin env .share aliases budget first)) :
    (Comparison.modes env aliases names).Alike Comparison.anyhow
      (Resolve.named .expand first.qualifiedName (bodyWithin env .expand aliases budget first) c)
      (Resolve.named .share first.qualifiedName (bodyWithin env .share aliases budget first)
        d) := by
  have hfresh : first.qualifiedName ∉ c.resolving := hpaired.expanding_open ▸ fresh
  have hfresh' : first.qualifiedName ∉ d.resolving := hpaired.sharing_open ▸ fresh
  have halike := hbody _ _ (hpaired.enter (not_mem_of_lookup missing'))
  cases hrun : bodyWithin env .expand aliases budget first (c.enter first.qualifiedName) <;>
    cases hrun' : bodyWithin env .share aliases budget first (d.enter first.qualifiedName) <;>
    rw [hrun, hrun'] at halike
  case ok.ok schema after schema' after' =>
    cases halike with
    | ok _ hafter =>
        obtain ⟨result, c', hnamed, hopen, hadded⟩ := named_of_body .expand missing hfresh hrun
        obtain ⟨result', d', hnamed', hopen', hadded'⟩ :=
          named_of_body .share missing' hfresh' hrun'
        have hcomplete := named_completes named hfirst hnamed' hpaired.complete
        rw [hnamed, hnamed']
        exact .ok trivial (hafter.leave fresh hopen hopen' (hadded.imp_right And.right)
          (by simpa using hadded') hcomplete)
  case ok.error => cases halike
  case error.ok =>
    rw [named_of_error missing hfresh hrun]
    cases halike with
    | waived waived => exact .waived waived
  case error.error =>
    rw [named_of_error missing hfresh hrun, named_of_error missing' hfresh' hrun']
    cases halike with
    | interrupted allowed => exact .interrupted allowed
    | waived waived => exact .waived waived

theorem modes_relate_named (named : env.WellNamed) (hfirst : env.IsFirst first)
    (followed : first.isFollowed aliases)
    (hbody : first.qualifiedName ∉ names →
      (Comparison.modes env aliases (first.qualifiedName :: names)).Relates Comparison.anyhow
        (bodyWithin env .expand aliases budget first)
        (bodyWithin env .share aliases budget first)) :
    (Comparison.modes env aliases names).Relates Comparison.anyhow
      (Resolve.named .expand first.qualifiedName (bodyWithin env .expand aliases budget first))
      (Resolve.named .share first.qualifiedName (bodyWithin env .share aliases budget first)) := by
  intro c d hpaired
  cases hexpanded : c.deps.lookup first.qualifiedName with
  | some schema =>
      have hdefined := hpaired.defined_subset (Context.mem_defined_of_lookup hexpanded)
      cases hshared : d.deps.lookup first.qualifiedName with
      | some schema' =>
          rw [named_of_finished hexpanded, named_of_finished hshared]
          exact .ok trivial hpaired
      | none => exact absurd hdefined (not_mem_of_lookup hshared)
  | none =>
      cases hshared : d.deps.lookup first.qualifiedName with
      | some schema =>
          rw [named_of_finished hshared]
          exact alike_of_finished named hpaired hfirst followed
            (Context.mem_defined_of_lookup hshared) hexpanded _
      | none =>
          by_cases hopen : first.qualifiedName ∈ names
          · rw [named_of_open hexpanded (hpaired.expanding_open ▸ hopen),
              named_of_open hshared (hpaired.sharing_open ▸ hopen)]
            exact .ok trivial ⟨hpaired.expanding_open, hpaired.sharing_open,
              hpaired.defined_subset, hpaired.unfinished, hpaired.complete⟩
          · exact alike_of_fresh named hpaired hfirst hexpanded hshared hopen (hbody hopen)

/-- **Side by side.** From paired states, both modes end alike, unless the `expand` run runs out of
depth. -/
theorem modes_relate (named : env.WellNamed) :
    (Comparison.modes env aliases names).Relates Comparison.anyhow
      (typeWithin env ⟨.expand, aliases⟩ budget type)
      (typeWithin env ⟨.share, aliases⟩ budget type) := by
  induction budget generalizing names type with
  | zero => exact fun _ _ _ => .waived rfl
  | succ budget ih =>
      have haliases : (Policy.mk .share aliases).aliases = (Policy.mk .expand aliases).aliases :=
        rfl
      apply Comparison.relates_step haliases
      · exact fun _ _ => trivial
      · exact fun inner _ => ih
      · rintro location name arguments first others rfl found followed
        apply modes_relate_named named (named.isFirst found) followed
        intro _
        exact Comparison.relates_declaration followed (fun _ _ => trivial) fun inner _ => ih

end Modes

/-! ### Enough depth -/

/-- A resolution that may go this deep never runs out of depth. -/
def sufficientBudget (declarations : List Declaration) (type : TypeExpr) : Nat :=
  (((DeclarationTable.ofList declarations).entries.map Prod.fst).toFinset.card + 1) *
    max type.depth (Declaration.depthOfAll declarations)

section Endings

variable {declarations : List Declaration} {policy : Policy} {type : TypeExpr} {budget : Nat}

theorem typeWithin_ne_depthExceeded (policy : Policy)
    (h : sufficientBudget declarations type ≤ budget) (c' : Context) :
    typeWithin (.ofTable (.ofList declarations)) policy budget type {} ≠
      .error .depthExceeded c' := by
  set depth := max type.depth (Declaration.depthOfAll declarations) with hdepth
  have hbounds := Environment.bounded_ofTable declarations depth (Nat.le_max_right _ _)
  set registered := ((DeclarationTable.ofList declarations).entries.map Prod.fst).toFinset
  have hcovers : type.depth + (registered.card - ([] : List String).length) * depth ≤ budget := by
    have htype : type.depth ≤ depth := Nat.le_max_left _ _
    have hlimit : (registered.card + 1) * depth ≤ budget := h
    rw [Nat.succ_mul] at hlimit
    rw [List.length_nil, Nat.sub_zero]
    omega
  have horder : (Environment.ofTable (.ofList declarations)).InOrder policy.aliases [] :=
    ⟨List.nodup_nil, by simp⟩
  exact (typeWithin_settles hbounds horder hcovers hcovers {} rfl).2.1 c'

theorem resolveWithin_ne_depthExceeded (h : sufficientBudget declarations type ≤ budget) :
    (resolveWithin budget (.ofTable (.ofList declarations)) policy type).1 ≠
      .error .depthExceeded := by
  rw [resolveWithin]
  cases hrun : typeWithin (.ofTable (.ofList declarations)) policy budget type {} with
  | ok root c => simp
  | error reason c =>
      rintro ⟨⟩
      exact typeWithin_ne_depthExceeded policy h c hrun

/-- Both modes from the empty state. -/
theorem modes_alike {env : Environment} (named : env.WellNamed) (aliases : Bool) (type : TypeExpr)
    (budget : Nat) :
    (Comparison.modes env aliases []).Alike Comparison.anyhow
      (typeWithin env ⟨.expand, aliases⟩ budget type {})
      (typeWithin env ⟨.share, aliases⟩ budget type {}) :=
  modes_relate named {} {} ⟨rfl, rfl, List.Subset.refl _, by simp, Context.complete_empty⟩

/-- **Both modes end alike.** Where the depth suffices, both modes succeed, or both end with the
same fault: the same problem of the same node. -/
theorem modes_end_alike (declarations : List Declaration) (aliases : Bool) (type : TypeExpr)
    (budget : Nat) (h : sufficientBudget declarations type ≤ budget) :
    let env : Environment := .ofTable (.ofList declarations)
    let expanded := (resolveWithin budget env ⟨.expand, aliases⟩ type).1
    let shared := (resolveWithin budget env ⟨.share, aliases⟩ type).1
    ((∃ model, expanded = .ok model) ∧ ∃ model, shared = .ok model) ∨
      ∃ fault, expanded = .error (.fault fault) ∧ shared = .error (.fault fault) := by
  intro env expanded shared
  have hends : expanded ≠ .error .depthExceeded := resolveWithin_ne_depthExceeded h
  have halike := modes_alike (Environment.wellNamed_ofTable declarations) aliases type budget
  simp only [expanded, shared, resolveWithin] at hends ⊢
  generalize typeWithin env ⟨.expand, aliases⟩ budget type {} = expandRun at halike hends ⊢
  generalize typeWithin env ⟨.share, aliases⟩ budget type {} = shareRun at halike ⊢
  cases halike with
  | ok _ _ => exact .inl ⟨⟨_, rfl⟩, _, rfl⟩
  | @interrupted reason _ _ _ =>
      cases reason with
      | depthExceeded => exact absurd rfl hends
      | fault fault => exact .inr ⟨fault, rfl, rfl⟩
  | waived waived =>
      subst waived
      exact absurd rfl hends

/-- Two interfaces, each with a property of the other's type. The second has one more that nothing
can be assigned to. -/
def deadlocked : List Declaration :=
  [.interface none "A"
    [.property none ⟨.identifier, "b", none⟩ (some (.reference none "B" [])) false] [],
   .interface none "B"
    [.property none ⟨.identifier, "a", none⟩ (some (.reference none "A" [])) true,
     .property none ⟨.identifier, "c", none⟩ (some (.keyword none .never)) true] []]

/-- Both modes get to the property without a schema, whichever interface it is approached from. -/
theorem modes_end_alike_deadlocked :
    let type : TypeExpr := .tuple none [.reference none "B" [], .reference none "A" []]
    let failure : Failure := ⟨.unsupportedKeyword .never, some (.type (.keyword none .never))⟩
    let ends mode := (resolveWithin 6 (.ofTable (.ofList deadlocked)) ⟨mode, false⟩ type).1
    sufficientBudget deadlocked type ≤ 6 ∧ ends .expand = .error (.fault (.failure failure)) ∧
      ends .share = .error (.fault (.failure failure)) := by
  intro type failure ends
  have hbudget : sufficientBudget deadlocked type ≤ 6 := by decide
  have hexpand : ends .expand = .error (.fault (.failure failure)) := rfl
  obtain ⟨⟨model, hmodel⟩, -⟩ | ⟨fault, hfault, hshare⟩ :=
    modes_end_alike deadlocked false type 6 hbudget
  · exact absurd (hexpand.symm.trans hmodel) (by simp)
  · obtain rfl : Fault.failure failure = fault := by simpa using hexpand.symm.trans hfault
    exact ⟨hbudget, hexpand, hshare⟩

/-- A type expression behind a number of parentheses. -/
def buried : Nat → TypeExpr → TypeExpr
  | 0, type => type
  | depth + 1, type => .parenthesized none (buried depth type)

/-- Type aliases, each of which stands for the next one and the last one for a string, all of them
behind a hundred parentheses. -/
def relay : List String → List Declaration
  | [] => []
  | [name] => [.typeAlias none name (buried 100 (.keyword none .string))]
  | name :: next :: rest =>
    .typeAlias none name (buried 100 (.reference none next [])) :: relay (next :: rest)

def relayNames : List String := ["A", "B", "C", "D", "E", "F", "G", "H", "I", "J", "K", "L"]

/-- The aliases of the relay, from the last to the first. -/
def relayed : TypeExpr :=
  .tuple none (relayNames.reverse.map fun name => .reference none name [])

/-- **The depth limit tells the modes apart.** When the aliases of a relay are referred to from the
last to the first, `share` mode finds the next one finished each time, while `expand` mode goes
through all that are left and exceeds the depth. -/
theorem modes_not_always_alike :
    ¬ ∀ (declarations : List Declaration) (aliases : Bool) (type : TypeExpr),
      let ends mode :=
        resolveType Limits.usual.resolving (.ofTable (.ofList declarations)) ⟨mode, aliases⟩ type []
      ((∃ model events, ends .expand = .ok model events) ↔
          ∃ model events, ends .share = .ok model events) ∧
        ∀ fault, (∃ events, ends .expand = .error fault events) ↔
          ∃ events, ends .share = .error fault events := by
  intro h
  have hshare : (resolveWithin Limits.usual.resolving (.ofTable (.ofList (relay relayNames)))
      ⟨.share, true⟩ relayed).1.isOk = true := by decide +kernel
  have hexpand : (resolveWithin Limits.usual.resolving (.ofTable (.ofList (relay relayNames)))
      ⟨.expand, true⟩ relayed).1.isOk = false := by decide +kernel
  obtain ⟨hsucceeds, -⟩ := h (relay relayNames) true relayed
  unfold resolveType at hsucceeds
  cases hrun : (resolveWithin Limits.usual.resolving (.ofTable (.ofList (relay relayNames)))
      ⟨.share, true⟩ relayed).1 with
  | error reason => simp [hrun, Except.isOk, Except.toBool] at hshare
  | ok model =>
      cases hrun' : (resolveWithin Limits.usual.resolving (.ofTable (.ofList (relay relayNames)))
          ⟨.expand, true⟩ relayed).1 with
      | ok model' => simp [hrun', Except.isOk, Except.toBool] at hexpand
      | error reason => simp [hrun, hrun'] at hsucceeds

end Endings

end TypeSchema
