import TypeSchema.Proofs.Resolution.Closed

/-!
# The invariant of a step, from any state

A resolution may be interrupted anywhere, and it may be looked at while declarations are open that
were entered long before. Whatever a step ends with, it leaves the open declarations as they were:
each one that it enters it leaves again on both ways out. So the states before and after a step are
compared for every end first, primitive by primitive and rule by rule.

When a step succeeds, the state is consistent again if it was so before. The names that are open
when the step begins are open when it ends, so they are held from the outside and may be mentioned
whether or not they were met again; all names that are entered later have to be met again before
they are mentioned.
-/

namespace TypeSchema

namespace Context

/-- A name that a schema may refer to: a declaration that is open or defined. -/
def Names (c : Context) (name : String) : Prop := name ∈ c.resolving ∨ name ∈ c.defined

/-- What holds at every moment of a resolution: open declarations are distinct and have no
definition yet, a name has one definition at most, and whatever was met again or is referred to by
a definition is open or defined. -/
structure Consistent (c : Context) : Prop where
  resolving_nodup : c.resolving.Nodup
  defined_nodup : c.defined.Nodup
  unfinished : ∀ name ∈ c.resolving, name ∉ c.defined
  recursive_named : ∀ name ∈ c.recursive, c.Names name
  references_named : ∀ entry ∈ c.deps, ∀ name ∈ entry.2.references, c.Names name

variable {c c' : Context} {name : String}

/-- With every open declaration held, a known name is one that is open or defined. -/
theorem known_resolving_iff : c.Known c.resolving name ↔ c.Names name := by
  constructor
  · rintro (hdefined | hopen | ⟨hopen, -⟩)
    · exact .inr hdefined
    · exact .inl hopen
    · exact .inl hopen
  · rintro (hopen | hdefined)
    · exact .inr (.inl hopen)
    · exact .inl hdefined

theorem consistent_iff_coherent : c.Consistent ↔ c.Coherent c.resolving := by
  constructor
  · intro h
    exact ⟨h.resolving_nodup, h.defined_nodup, h.unfinished, h.recursive_named,
      fun _ hopen => hopen, fun entry hentry name hname =>
        known_resolving_iff.mpr (h.references_named entry hentry name hname)⟩
  · intro h
    exact ⟨h.resolving_nodup, h.defined_nodup, h.unfinished, h.recursive_known,
      fun entry hentry name hname => known_resolving_iff.mp (h.closed entry hentry name hname)⟩

end Context

/-- The state in which a computation ends, whether it succeeds or is interrupted. -/
def Resolve.endState {α : Type} : EStateM.Result Interruption Context α → Context
  | .ok _ c => c
  | .error _ c => c

namespace Resolve

/-! ### Every end of a step -/

/-- However the computation ends, its last state extends the one that it began in. -/
def Advances {α : Type} (m : Resolve α) : Prop := ∀ c : Context, c.Extends (endState (m c))

section Computations

variable {α β : Type} {m : Resolve α} {f : α → Resolve β}

theorem advances_pure (a : α) : Advances (pure a) := fun c => .refl c

theorem advances_throw (interruption : Interruption) : Advances (throw interruption : Resolve α) :=
  fun c => .refl c

theorem advances_fail (problem : Problem) (node : Node) :
    Advances (fail problem node : Resolve α) :=
  advances_throw _

theorem advances_ofExcept (x : Except Failure α) : Advances (ofExcept x) := by
  cases x with
  | ok a => exact advances_pure a
  | error failure => exact advances_throw _

theorem advances_ofInteger (x : Except Json.IntegerProblem α) : Advances (ofInteger x) := by
  cases x with
  | ok n => exact advances_pure n
  | error problem => exact advances_throw _

theorem advances_record (events : List Event) : Advances (record events) :=
  fun _ => ⟨rfl, List.prefix_rfl, List.Subset.refl _⟩

theorem advances_markRecursive (name : String) : Advances (markRecursive name) :=
  fun c => ⟨rfl, List.prefix_rfl, List.subset_cons_self name c.recursive⟩

theorem advances_define (name : String) (schema : Schema) : Advances (define name schema) :=
  fun c => ⟨rfl, List.prefix_append c.deps _, List.Subset.refl _⟩

theorem Advances.bind (h : Advances m) (hf : ∀ a, Advances (f a)) : Advances (m >>= f) := by
  intro c
  have hfirst := h c
  have hrun : (m >>= f) c = EStateM.bind m f c := rfl
  rw [hrun, EStateM.bind]
  cases hm : m c with
  | ok a middle =>
      rw [hm] at hfirst
      exact hfirst.trans (hf a middle)
  | error interruption after =>
      rw [hm] at hfirst
      exact hfirst

theorem advances_get_bind {f : Context → Resolve β} (h : ∀ c, Advances (f c)) :
    Advances (get >>= f) :=
  fun c => h c c

/-- A declaration is left on both ways out. -/
theorem Advances.within (h : Advances m) (name : String) : Advances (within name m) := by
  intro c
  have hbody := h (c.enter name)
  rw [Resolve.within]
  cases hm : m (c.enter name) with
  | ok a after =>
      rw [hm] at hbody
      exact hbody.leave
  | error interruption after =>
      rw [hm] at hbody
      exact hbody.leave

theorem advances_mapM (h : ∀ a, Advances (f a)) (xs : List α) : Advances (xs.mapM f) := by
  induction xs with
  | nil => exact advances_pure []
  | cons x xs ih =>
      rw [List.mapM_cons]
      apply (h x).bind
      intro y
      apply ih.bind
      intro ys
      exact advances_pure _

end Computations

section Rules

variable {env : Environment} {policy : Policy} {resolve : TypeExpr → Resolve Schema}
  {body : Declaration → Resolve Schema}

theorem advances_keyword (type : TypeExpr) (word : Keyword) : Advances (keyword type word) := by
  unfold keyword
  cases word.schema? with
  | none => exact advances_fail _ _
  | some schema => exact advances_pure schema

theorem advances_literal (type : TypeExpr) (expression : Literal) :
    Advances (literal env type expression) := by
  unfold literal
  cases expression.kind with
  | null | trueLiteral | falseLiteral => exact advances_pure _
  | string | numeric =>
      apply (advances_ofExcept _).bind
      intro evaluated
      exact advances_ofExcept _
  | bigInt =>
      apply (advances_ofExcept _).bind
      intro evaluated
      by_cases hflag : TypeFlag.bigIntLiteral ∈ evaluated.flags
      · rw [if_pos hflag]
        apply (advances_ofInteger _).bind
        intro value
        exact advances_pure _
      · rw [if_neg hflag]
        exact advances_fail _ _
  | _ => exact advances_fail _ _

theorem advances_enumMember (member : EnumMember) : Advances (enumMember env member) := by
  unfold enumMember
  apply (advances_ofExcept _).bind
  intro text
  apply (advances_record _).bind
  intro _
  dsimp only
  cases (env.evaluateMember member).literalSchema? with
  | none => exact advances_fail _ _
  | some schema => exact advances_pure _

theorem advances_member (h : ∀ type, Advances (resolve type)) (member : Member) :
    Advances (Resolve.member resolve member) := by
  cases member with
  | property location name type optional =>
      cases type with
      | none => exact advances_fail _ _
      | some type =>
          apply (advances_ofExcept _).bind
          intro text
          apply (h type).bind
          intro schema
          exact advances_pure _
  | index location parameter key type => cases type <;> exact advances_fail _ _
  | other _ _ _ | foreign _ _ => exact advances_fail _ _

theorem advances_members (h : ∀ type, Advances (resolve type)) (seen : List String)
    (members : List Member) : Advances (Resolve.members resolve seen members) := by
  induction members generalizing seen with
  | nil => exact advances_pure []
  | cons first rest ih =>
      rw [Resolve.members]
      apply (advances_member h first).bind
      rintro ⟨text, schema⟩
      by_cases hseen : text ∈ seen
      · simp only [if_pos hseen]
        exact advances_fail _ _
      · simp only [if_neg hseen]
        apply (ih (text :: seen)).bind
        intro others
        exact advances_pure _

theorem advances_declaration (h : ∀ type, Advances (resolve type)) (first : Declaration) :
    Advances (declaration env resolve first) := by
  cases first with
  | enum location name members =>
      apply (advances_mapM advances_enumMember members).bind
      intro schemas
      exact advances_pure _
  | interface location name members bases =>
      apply (advances_record _).bind
      intro _
      apply (advances_members h [] members).bind
      intro schemas
      exact advances_pure _
  | typeAlias location name type => exact h type
  | _ => exact advances_fail _ _

theorem advances_named {m : Resolve Schema} (h : Advances m) (mode : ReferenceMode)
    (name : String) : Advances (named mode name m) := by
  apply advances_get_bind
  intro before
  cases before.deps.lookup name with
  | some schema => exact advances_pure _
  | none =>
      by_cases hentered : name ∈ before.resolving
      · simp only [if_pos hentered]
        apply (advances_record _).bind
        intro _
        apply (advances_markRecursive name).bind
        intro _
        exact advances_pure _
      · simp only [if_neg hentered]
        apply (h.within name).bind
        intro schema
        apply advances_get_bind
        intro after
        by_cases hkept : mode = .share ∨ name ∈ after.recursive
        · simp only [if_pos hkept]
          apply (advances_record _).bind
          intro _
          apply (advances_define name schema).bind
          intro _
          exact advances_pure _
        · simp only [if_neg hkept]
          exact advances_pure _

theorem advances_reference (h : ∀ first, Advances (body first)) (type : TypeExpr) (name : String)
    (arguments : List TypeExpr) : Advances (reference env policy body type name arguments) := by
  unfold reference
  apply (advances_record _).bind
  intro _
  cases env.declarations name with
  | nil => exact advances_fail _ _
  | cons first others =>
      apply (advances_record _).bind
      intro _
      cases first with
      | enumMember member => exact advances_enumMember member
      | enum _ _ _ | interface _ _ _ _ => exact advances_named (h _) _ _
      | typeAlias _ _ _ =>
          by_cases haliases : policy.aliases
          · simp only [if_pos haliases]
            exact advances_named (h _) _ _
          · simp only [if_neg haliases]
            exact advances_fail _ _
      | other _ _ _ | foreign _ _ _ => exact advances_fail _ _

/-- One step advances when the steps inside it do. -/
theorem advances_step (h : ∀ type, Advances (resolve type)) (hbody : ∀ first, Advances (body first))
    (type : TypeExpr) : Advances (step env policy resolve body type) := by
  cases type with
  | keyword location word => exact advances_keyword _ word
  | literal location expression => exact advances_literal _ expression
  | array location element =>
      apply (h element).bind
      intro schema
      exact advances_pure _
  | union location parts | intersection location parts | tuple location parts =>
      apply (advances_mapM h parts).bind
      intro schemas
      exact advances_pure _
  | parenthesized location inner => exact h inner
  | object location members =>
      apply (advances_members h [] members).bind
      intro schemas
      exact advances_pure _
  | reference location name arguments => exact advances_reference hbody _ name arguments
  | unsupported _ _ | foreign _ _ => exact advances_fail _ _

/-- However the resolution of a type expression ends, and however deep it was allowed to go. -/
theorem advances_typeWithin (env : Environment) (policy : Policy) (budget : Nat)
    (type : TypeExpr) : Advances (typeWithin env policy budget type) := by
  induction budget generalizing type with
  | zero => exact advances_throw _
  | succ budget ih => exact advances_step ih (advances_declaration ih) type

end Rules

/-! ### The whole invariant -/

/-- How a step ends that began in a consistent state: always in a state that extends the first one,
and if it succeeds in a consistent state whose names are all that the result refers to. -/
def StepsTo {α : Type} (references : α → List String) (c : Context) :
    EStateM.Result Interruption Context α → Prop
  | .ok a c' => c.Extends c' ∧ c'.Consistent ∧ ∀ name ∈ references a, c'.Names name
  | .error _ c' => c.Extends c'

theorem stepsTo_of_yields {α : Type} {m : Resolve α} {references : α → List String} {c : Context}
    (hc : c.Consistent) (hm : Advances m)
    (hyields : ∀ a c', m c = .ok a c' → c.Yields c.resolving (references a) c') :
    StepsTo references c (m c) := by
  have hend := hm c
  cases hrun : m c with
  | error interruption c' =>
      rw [hrun] at hend
      exact hend
  | ok a c' =>
      obtain ⟨hextends, hkept⟩ := hyields a c' hrun
      obtain ⟨hcoherent, hknown⟩ := hkept (Context.consistent_iff_coherent.mp hc)
      -- The names that were open before are those that are open now.
      rw [← hextends.resolving_eq] at hcoherent hknown
      exact ⟨hextends, Context.consistent_iff_coherent.mpr hcoherent,
        fun name hname => Context.known_resolving_iff.mp (hknown name hname)⟩

theorem declaration_yields {env : Environment} {policy : Policy} {budget : Nat}
    {first : Declaration} {c c' : Context} {schema : Schema} (held : List String)
    (h : declaration env (typeWithin env policy budget) first c = .ok schema c') :
    c.Yields held schema.references c' :=
  bodyRule_yields ((declaration_eq_ok_iff.mp h).mono fun _ _ _ _ => typeWithin_yields held)

/-- **The invariant of a step.** From any consistent state, and at any depth: the resolution of a
type expression, of a declaration that can take part in recursion and of the members of an object
leave the open declarations as they were, keep all definitions and forget no name that was met
again, however they end. When they succeed, the state is consistent again, and what they yield
refers to open and defined names only. -/
theorem step_keeps_invariant (env : Environment) (policy : Policy) (budget : Nat) {c : Context}
    (hc : c.Consistent) :
    (∀ type, StepsTo Schema.references c (typeWithin env policy budget type c)) ∧
      (∀ first : Declaration, StepsTo Schema.references c
        (named policy.mode first.qualifiedName
          (declaration env (typeWithin env policy budget) first) c)) ∧
      ∀ members, StepsTo Schema.referencesOfAll c
        (Resolve.members (typeWithin env policy budget) [] members c) := by
  have hadvances := advances_typeWithin env policy budget
  refine ⟨fun type => ?_, fun first => ?_, fun members => ?_⟩
  · exact stepsTo_of_yields hc (hadvances type) fun _ _ => typeWithin_yields c.resolving
  · refine stepsTo_of_yields hc (advances_named (advances_declaration hadvances first) _ _) ?_
    intro schema c' hrun
    exact namedRule_yields (fun _ _ _ => declaration_yields c.resolving) (named_eq_ok_iff.mp hrun)
  · refine stepsTo_of_yields hc (advances_members hadvances [] members) ?_
    intro schemas c' hrun
    exact memberRule_yields ((members_eq_ok_iff.mp hrun).mono
      fun _ _ _ _ => typeWithin_yields c.resolving)

/-- In the middle of a resolution: one interface is open and was met again, another is defined and
refers to it. -/
def halfway : Context where
  deps := [("B", .object [.member "a" true (.reference "A")])]
  resolving := ["A"]
  recursive := ["A"]

theorem halfway_consistent : halfway.Consistent where
  resolving_nodup := by decide
  defined_nodup := by decide
  unfinished := by decide
  recursive_named := by
    intro name hname
    exact .inl hname
  references_named := by
    intro entry hentry name hname
    obtain rfl := List.mem_singleton.mp hentry
    obtain rfl := List.mem_singleton.mp hname
    exact .inl List.mem_cons_self

/-- A type expression that refers to both, and one that fails after it has met a declaration again.
Both end in the state in which it was met again, and keep the invariant. -/
theorem step_keeps_invariant_halfway :
    let env : Environment := .ofTable (.ofList interlinked)
    let both : TypeExpr := .tuple none [.reference none "B" [], .reference none "A" []]
    let broken : TypeExpr := .union none [.reference none "A" [], .unsupported none "MappedType"]
    let last := (halfway.note [.recursiveReference "A" ["A"]]).mark "A"
    halfway.Consistent ∧
      (typeWithin env ⟨.expand, false⟩ 4 both halfway =
          .ok (.tuple [.tupleElement 0 (.object [.member "a" true (.reference "A")]),
            .tupleElement 1 (.reference "A")]) last ∧
        halfway.Extends last ∧ last.Consistent ∧ last.Names "A") ∧
      endState (typeWithin env ⟨.expand, false⟩ 4 broken halfway) = last ∧
      StepsTo Schema.references halfway (typeWithin env ⟨.expand, false⟩ 4 broken halfway) := by
  intro env both broken last
  have hboth : typeWithin env ⟨.expand, false⟩ 4 both halfway =
      .ok (.tuple [.tupleElement 0 (.object [.member "a" true (.reference "A")]),
        .tupleElement 1 (.reference "A")]) last := rfl
  have hsteps := (step_keeps_invariant env ⟨.expand, false⟩ 4 halfway_consistent).1
  have hend := hsteps both
  rw [hboth] at hend
  obtain ⟨hextends, hconsistent, hnames⟩ := hend
  exact ⟨halfway_consistent, ⟨hboth, hextends, hconsistent, hnames "A" List.mem_cons_self⟩, rfl,
    hsteps broken⟩

end Resolve

end TypeSchema
