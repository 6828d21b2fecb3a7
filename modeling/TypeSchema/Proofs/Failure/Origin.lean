import TypeSchema.Proofs.Failure.Comparison

/-!
# Where faults come from

A resolution ends with a fault only if a node that it reaches is refused with that fault. The nodes
that can be reached are those that no open declaration stands in front of, so the fault says
something about the source as it is seen from where the resolution began.
-/

namespace TypeSchema

/-- A node that can be reached is refused with the fault. -/
def Environment.Faulty (env : Environment) (aliases : Bool) (held : List String) (node : Node)
    (fault : Fault) : Prop :=
  ∃ inner, env.Reaches aliases held node inner ∧ inner.Refused env aliases fault

/-! ### References to declarations -/

namespace Resolve

variable {mode : ReferenceMode} {name : String} {run : Resolve Schema} {c after : Context}
  {schema : Schema} {reason : Interruption}

theorem named_of_finished (found : c.deps.lookup name = some schema) :
    named mode name run c = .ok (mode.occurrence name schema) c :=
  named_eq_ok_iff.mpr (.finished found)

theorem named_of_open (missing : c.deps.lookup name = none) (entered : name ∈ c.resolving) :
    named mode name run c = .ok (.reference name)
      ((c.note [.recursiveReference name c.resolving.reverse]).mark name) :=
  named_eq_ok_iff.mpr (.reentered missing entered)

/-- After a body that is resolved the stack is popped; its declaration is added to the definitions,
always so in `share` mode, or nothing is. -/
theorem named_of_body (mode : ReferenceMode) (missing : c.deps.lookup name = none)
    (fresh : name ∉ c.resolving) (resolved : run (c.enter name) = .ok schema after) :
    ∃ result c', named mode name run c = .ok result c' ∧ c'.resolving = after.resolving.tail ∧
      (c'.defined = after.defined ++ [name] ∨ mode = .expand ∧ c'.defined = after.defined) := by
  by_cases hkept : mode = .share ∨ name ∈ after.recursive
  · refine ⟨_, _, named_eq_ok_iff.mpr (.recorded missing fresh resolved hkept), rfl, .inl ?_⟩
    simp [Context.defined]
  · refine ⟨_, _, named_eq_ok_iff.mpr (.inlined missing fresh resolved hkept), rfl, .inr ⟨?_, rfl⟩⟩
    cases mode with
    | expand => rfl
    | share => simp at hkept

theorem named_of_error (missing : c.deps.lookup name = none) (fresh : name ∉ c.resolving)
    (interrupted : run (c.enter name) = .error reason after) :
    named mode name run c = .error reason after.leave := by
  have hwithin : within name run c = .error reason after.leave := by
    rw [within, interrupted]
  unfold named
  rw [get_bind, missing]
  simp only [if_neg fresh]
  change EStateM.bind (within name run) _ c = _
  rw [EStateM.bind, hwithin]

end Resolve

/-! ### A run compared with itself -/

open Resolve

/-- The given declarations are open, and faults are to be among the given ones. -/
def Comparison.itself (names : List String) (faults : Fault → Prop) : Comparison where
  paired c d := c = d ∧ c.resolving = names
  allowed reason := ∃ fault, reason = .fault fault ∧ faults fault
  waived reason := reason = .depthExceeded
  note := by
    rintro c _ events ⟨rfl, hnames⟩
    exact ⟨rfl, hnames⟩

section Itself

variable {env : Environment} {policy : Policy} {names : List String} {faults : Fault → Prop}
  {type : TypeExpr} {first : Declaration} {budget : Nat}

theorem itself_named {mode : ReferenceMode} {name : String} {run : Resolve Schema}
    (h : name ∉ names →
      (Comparison.itself (name :: names) faults).Relates Comparison.anyhow run run) :
    (Comparison.itself names faults).Relates Comparison.anyhow (named mode name run)
      (named mode name run) := by
  rintro c _ ⟨rfl, rfl⟩
  cases hlookup : c.deps.lookup name with
  | some schema =>
      rw [named_of_finished hlookup]
      exact .ok trivial ⟨rfl, rfl⟩
  | none =>
      by_cases hopen : name ∈ c.resolving
      · rw [named_of_open hlookup hopen]
        exact .ok trivial ⟨rfl, rfl⟩
      · have halike := h hopen (c.enter name) (c.enter name) ⟨rfl, rfl⟩
        cases hrun : run (c.enter name) with
        | ok schema after =>
            obtain ⟨result, c', hnamed, hresolving, -⟩ := named_of_body mode hlookup hopen hrun
            rw [hrun] at halike
            rw [hnamed]
            cases halike with
            | ok _ hafter =>
                refine .ok trivial ⟨rfl, ?_⟩
                rw [hresolving, hafter.2, List.tail_cons]
        | error reason after =>
            rw [hrun] at halike
            rw [named_of_error hlookup hopen hrun]
            cases halike with
            | interrupted allowed => exact .interrupted allowed
            | waived waived => exact .waived waived

theorem itself_relates
    (h : ∀ fault, env.Faulty policy.aliases names (.type type) fault → faults fault) :
    (Comparison.itself names faults).Relates Comparison.anyhow (typeWithin env policy budget type)
      (typeWithin env policy budget type) := by
  induction budget generalizing names type with
  | zero => exact fun _ _ _ => .waived rfl
  | succ budget ih =>
      have hallows : ∀ node, env.Reaches policy.aliases names (.type type) node →
          ∀ names', (Comparison.itself names' faults).Allows env policy.aliases node :=
        fun node hnode _ fault hrefused => ⟨fault, rfl, h fault ⟨node, hnode, hrefused⟩⟩
      apply Comparison.relates_step rfl (hallows _ .refl names)
      · intro inner hinner
        apply ih
        rintro fault ⟨node, hnode, hrefused⟩
        exact h fault ⟨node, hnode.head (.part hinner), hrefused⟩
      · rintro location name arguments first others rfl found followed
        apply itself_named
        intro fresh
        have hstep : env.Below policy.aliases names (.type (.reference location name arguments))
            (.declaration first) := .definition found followed fresh
        apply Comparison.relates_declaration followed (hallows _ (.single hstep) _)
        intro inner hinner
        apply ih
        rintro fault ⟨node, hnode, hrefused⟩
        have houtside := hnode.of_subset (List.subset_cons_self first.qualifiedName names)
        exact h fault ⟨node, .head hstep (.head (.body hinner) houtside), hrefused⟩

theorem itself_relates_declaration (followed : first.isFollowed policy.aliases)
    (h : ∀ fault, env.Faulty policy.aliases names (.declaration first) fault → faults fault) :
    (Comparison.itself names faults).Relates Comparison.anyhow
      (declaration env (typeWithin env policy budget) first)
      (declaration env (typeWithin env policy budget) first) := by
  apply Comparison.relates_declaration followed
  · exact fun fault hrefused => ⟨fault, rfl, h fault ⟨_, .refl, hrefused⟩⟩
  · intro inner hinner
    apply itself_relates
    rintro fault ⟨node, hnode, hrefused⟩
    exact h fault ⟨node, hnode.head (.body hinner), hrefused⟩

variable {c c' : Context} {fault : Fault}

theorem fault_of_itself {α : Type} {run : Resolve α}
    (hrelates : (Comparison.itself c.resolving faults).Relates Comparison.anyhow run run)
    (h : run c = .error (.fault fault) c') : faults fault := by
  have halike := hrelates c c ⟨rfl, rfl⟩
  rw [h] at halike
  cases halike with
  | interrupted allowed =>
      obtain ⟨_, ⟨⟩, hfault⟩ := allowed
      exact hfault
  | waived waived => cases waived

/-- **Faults are reached.** A resolution that ends with a fault reaches a node that is refused with
it. -/
theorem faulty_of_error (h : typeWithin env policy budget type c = .error (.fault fault) c') :
    env.Faulty policy.aliases c.resolving (.type type) fault :=
  fault_of_itself (itself_relates fun _ hfaulty => hfaulty) h

theorem faulty_of_body_error (followed : first.isFollowed policy.aliases)
    (h : declaration env (typeWithin env policy budget) first c = .error (.fault fault) c') :
    env.Faulty policy.aliases c.resolving (.declaration first) fault :=
  fault_of_itself (itself_relates_declaration followed fun _ hfaulty => hfaulty) h

end Itself

end TypeSchema
