import TypeSchema.Proofs.Failure.Support
import TypeSchema.Proofs.Spelling.Unwrapping

/-!
# What has no influence

Two resolutions are run side by side, of a type expression and of an unwrapped one that says the
same. Apart from what they record they go through the same states, and the second one follows the
first: it ends with the same schema or stops for the same reason, about the node that corresponds.
Only depth tells them apart. Parentheses cost the first run one level each, so it may exceed the
depth where the second one does not; that is why the induction is on the depth of the first run,
while the second one may go at least as deep.
-/

namespace TypeSchema

/-- The state without the events. -/
def Context.silent (context : Context) : Context := { context with events := [] }

theorem Context.eq_of_silent {c d : Context} (h : d.silent = c.silent) :
    d.deps = c.deps ∧ d.resolving = c.resolving ∧ d.recursive = c.recursive := by
  have hdeps := congrArg Context.deps h
  have hopen := congrArg Context.resolving h
  have hmarked := congrArg Context.recursive h
  exact ⟨hdeps, hopen, hmarked⟩

/-- The reason without the node that it is about. -/
def Interruption.unplaced : Interruption → Interruption
  | .fault (.failure failure) => .fault (.failure ⟨failure.problem, none⟩)
  | .fault (.notInteger problem) => .fault (.notInteger problem)
  | .depthExceeded => .depthExceeded

/-- A failure is matched by failures of the same problem only. -/
theorem Interruption.exists_failure_of_unplaced {reason : Interruption} {failure : Failure}
    (h : reason.unplaced = Interruption.unplaced (.fault (.failure failure))) :
    ∃ failure', reason = .fault (.failure failure') ∧ failure'.problem = failure.problem := by
  cases reason with
  | depthExceeded => cases h
  | fault fault =>
      cases fault with
      | notInteger _ => cases h
      | failure failure' =>
          simp only [unplaced, Interruption.fault.injEq, Fault.failure.injEq, Failure.mk.injEq,
            and_true] at h
          exact ⟨failure', rfl, h⟩

namespace Resolve

/-! ### Computations that follow each other -/

/-- How a run may end that follows another one. Where the first one exceeds the depth, nothing is
said about the second. -/
inductive Matched {α : Type} : EStateM.Result Interruption Context α →
    EStateM.Result Interruption Context α → Prop
  | ok (a : α) {c d : Context} (silent : d.silent = c.silent) : Matched (.ok a c) (.ok a d)
  | interrupted {reason reason' : Interruption} {c d : Context}
      (unplaced : reason'.unplaced = reason.unplaced) :
      Matched (.error reason c) (.error reason' d)
  | exceeded {c : Context} {result : EStateM.Result Interruption Context α} :
      Matched (.error .depthExceeded c) result

/-- From states that differ in their events only, the second computation ends like the first. -/
def Follows {α : Type} (m m' : Resolve α) : Prop :=
  ∀ c d : Context, d.silent = c.silent → Matched (m c) (m' d)

section Computations

variable {α β : Type} {m m' : Resolve α} {f f' : α → Resolve β}

theorem follows_pure (a : α) : Follows (pure a) (pure a) := fun _ _ hsilent => .ok a hsilent

theorem follows_throw {reason reason' : Interruption} (h : reason'.unplaced = reason.unplaced) :
    Follows (throw reason : Resolve α) (throw reason') :=
  fun _ _ _ => .interrupted h

theorem follows_fail (problem : Problem) (node node' : Node) :
    Follows (fail problem node : Resolve α) (fail problem node') :=
  follows_throw rfl

theorem follows_ofExcept {x x' : Except Failure α}
    (h : x'.mapError Failure.problem = x.mapError Failure.problem) :
    Follows (ofExcept x) (ofExcept x') := by
  cases x with
  | ok a =>
      cases x' with
      | ok a' =>
          obtain rfl := Except.ok.inj h
          exact follows_pure a'
      | error _ => cases h
  | error failure =>
      cases x' with
      | ok _ => cases h
      | error failure' =>
          have hproblem : failure'.problem = failure.problem := Except.error.inj h
          refine follows_throw ?_
          rw [Interruption.unplaced, Interruption.unplaced, hproblem]

theorem follows_ofInteger (x : Except Json.IntegerProblem α) :
    Follows (ofInteger x) (ofInteger x) := by
  cases x with
  | ok a => exact follows_pure a
  | error problem => exact follows_throw rfl

/-- Changes that can be made without regard to the events. -/
theorem follows_modify {change change' : Context → Context}
    (h : ∀ c d : Context, d.silent = c.silent → (change' d).silent = (change c).silent) :
    Follows (modify change : Resolve Unit) (modify change') :=
  fun c d hsilent => .ok () (h c d hsilent)

theorem follows_record (events events' : List Event) :
    Follows (record events) (record events') :=
  follows_modify fun _ _ hsilent => hsilent

theorem follows_markRecursive (name : String) :
    Follows (markRecursive name) (markRecursive name) :=
  follows_modify fun _ _ hsilent => congrArg (Context.mark · name) hsilent

theorem follows_define (name : String) (schema : Schema) :
    Follows (define name schema) (define name schema) :=
  follows_modify fun _ _ hsilent => congrArg (Context.define · name schema) hsilent

theorem Follows.bind (h : Follows m m') (hf : ∀ a, Follows (f a) (f' a)) :
    Follows (m >>= f) (m' >>= f') := by
  intro c d hsilent
  have hrun : (m >>= f) c = EStateM.bind m f c := rfl
  have hrun' : (m' >>= f') d = EStateM.bind m' f' d := rfl
  have hmatched := h c d hsilent
  rw [hrun, hrun', EStateM.bind, EStateM.bind]
  generalize m c = result at hmatched
  generalize m' d = result' at hmatched
  cases hmatched with
  | ok a hmiddle => exact hf a _ _ hmiddle
  | interrupted unplaced => exact .interrupted unplaced
  | exceeded => exact .exceeded

theorem follows_get_bind {f f' : Context → Resolve β}
    (h : ∀ c d : Context, d.silent = c.silent → Follows (f c) (f' d)) :
    Follows (get >>= f) (get >>= f') :=
  fun c d hsilent => h c d hsilent c d hsilent

theorem Follows.within {name : String} (h : Follows m m') :
    Follows (within name m) (within name m') := by
  intro c d hsilent
  have hmatched := h (c.enter name) (d.enter name) (congrArg (Context.enter · name) hsilent)
  rw [Resolve.within, Resolve.within]
  generalize m (c.enter name) = result at hmatched
  generalize m' (d.enter name) = result' at hmatched
  cases hmatched with
  | ok a hafter => exact .ok a (congrArg Context.leave hafter)
  | interrupted unplaced => exact .interrupted unplaced
  | exceeded => exact .exceeded

theorem follows_mapM {xs ys : List α} (h : List.Forall₂ (fun x y => Follows (f x) (f' y)) xs ys) :
    Follows (xs.mapM f) (ys.mapM f') := by
  induction h with
  | nil => exact follows_pure []
  | cons head _ ih =>
      rw [List.mapM_cons, List.mapM_cons]
      exact head.bind fun y => ih.bind fun ys => follows_pure _

end Computations

/-! ### Rules -/

/-- Type expressions that say the same are resolved alike. -/
def TypesFollow (resolve resolve' : TypeExpr → Resolve Schema) : Prop :=
  ∀ ⦃type type' : TypeExpr⦄, type.Unwraps type' → Follows (resolve type) (resolve' type')

/-- So are the bodies of declarations. -/
def BodiesFollow (body body' : Declaration → Resolve Schema) : Prop :=
  ∀ ⦃first first' : Declaration⦄, first.Unwraps first' → Follows (body first) (body' first')

section Rules

variable {env env' : Environment} {policy : Policy} {resolve resolve' : TypeExpr → Resolve Schema}
  {body body' : Declaration → Resolve Schema} {type type' : TypeExpr}

theorem follows_keyword (type type' : TypeExpr) (word : Keyword) :
    Follows (keyword type word) (keyword type' word) := by
  unfold keyword
  cases word.schema? with
  | some schema => exact follows_pure schema
  | none => exact follows_fail _ _ _

theorem follows_literalSchema (evaluated : Evaluated) (node node' : Option Node) :
    Follows (ofExcept (evaluated.literalSchema node))
      (ofExcept (evaluated.literalSchema node')) := by
  apply follows_ofExcept
  unfold Evaluated.literalSchema
  cases evaluated.literalSchema? <;> rfl

theorem follows_literal (h : env.Unwraps env') {expression expression' : Literal}
    (same : expression'.unlocated = expression.unlocated) :
    Follows (literal env type expression) (literal env' type' expression') := by
  obtain ⟨hkind, htext⟩ := Literal.kind_eq_and_text_eq same
  have hevaluated := follows_ofExcept (h.literals same)
  unfold literal
  rw [hkind, htext]
  cases expression.kind with
  | null | trueLiteral | falseLiteral => exact follows_pure _
  | string | numeric => exact hevaluated.bind fun evaluated => follows_literalSchema _ _ _
  | bigInt =>
      refine hevaluated.bind fun evaluated => ?_
      by_cases hflag : TypeFlag.bigIntLiteral ∈ evaluated.flags
      · rw [if_pos hflag, if_pos hflag]
        exact (follows_ofInteger _).bind fun n => follows_pure _
      · rw [if_neg hflag, if_neg hflag]
        exact follows_fail _ _ _
  | _ => exact follows_fail _ _ _

theorem follows_plain {name name' : PropertyName} (same : name'.unlocated = name.unlocated) :
    Follows (ofExcept name.plain) (ofExcept name'.plain) := by
  have hkind := congrArg PropertyName.kind same
  have htext := congrArg PropertyName.text same
  change name'.kind = name.kind at hkind
  change name'.text = name.text at htext
  apply follows_ofExcept
  rw [PropertyName.plain, PropertyName.plain, hkind, htext]
  cases name.kind <;> rfl

theorem follows_member (hresolve : TypesFollow resolve resolve')
    {first first' : Member} (h : first.Unwraps first') :
    Follows (member resolve first) (member resolve' first') := by
  cases h.rule with
  | untyped => exact follows_fail _ _ _
  | typed named inner =>
      exact (follows_plain named).bind fun text =>
        (hresolve inner).bind fun schema => follows_pure _
  | @index _ _ _ _ _ type type' same =>
      cases type <;> cases type' <;> simp only [Option.isSome, reduceCtorEq] at same
      · exact follows_fail _ _ _
      · exact follows_fail _ _ _
  | other | foreign => exact follows_fail _ _ _

theorem follows_members (hresolve : TypesFollow resolve resolve')
    (seen : List String) {contents contents' : List Member}
    (h : List.Forall₂ Member.Unwraps contents contents') :
    Follows (members resolve seen contents) (members resolve' seen contents') := by
  induction h generalizing seen with
  | nil => exact follows_pure []
  | cons head _ ih =>
      rw [members, members]
      refine (follows_member hresolve head).bind fun result => ?_
      obtain ⟨name, schema⟩ := result
      by_cases hseen : name ∈ seen
      · simp only [if_pos hseen]
        exact follows_fail _ _ _
      · simp only [if_neg hseen]
        exact (ih (name :: seen)).bind fun others => follows_pure _

theorem follows_enumMember (h : env.Unwraps env') {first first' : EnumMember}
    (same : first'.unlocated = first.unlocated) :
    Follows (enumMember env first) (enumMember env' first') := by
  have hname := congrArg EnumMember.qualifiedName same
  change first'.qualifiedName = first.qualifiedName at hname
  unfold enumMember
  rw [h.members same, hname]
  refine (follows_plain (congrArg EnumMember.memberName same)).bind fun text => ?_
  refine (follows_record _ _).bind fun _ => ?_
  dsimp only
  cases (env.evaluateMember first).literalSchema? with
  | some schema => exact follows_pure _
  | none => exact follows_fail _ _ _

theorem follows_declaration (henv : env.Unwraps env') (hresolve : TypesFollow resolve resolve')
    {first first' : Declaration} (h : first.Unwraps first') :
    Follows (declaration env resolve first) (declaration env' resolve' first') := by
  cases h.rule with
  | enum inner =>
      exact (follows_mapM (inner.imp fun _ _ same => follows_enumMember henv same)).bind
        fun schemas => follows_pure _
  | interface inner =>
      exact (follows_record _ _).bind fun _ =>
        (follows_members hresolve [] inner).bind fun schemas => follows_pure _
  | typeAlias inner => exact hresolve inner
  | @enumMember member member' same =>
      have hname := congrArg EnumMember.name same
      change member'.name = member.name at hname
      change Follows (fail (.unsupportedDeclaration member.name _) _)
        (fail (.unsupportedDeclaration member'.name _) _)
      rw [hname]
      exact follows_fail _ _ _
  | other | foreign => exact follows_fail _ _ _

/-- Which definitions there are, which declarations are open and which were met again does not
depend on the events. -/
theorem follows_named (mode : ReferenceMode) (name : String) {run run' : Resolve Schema}
    (h : Follows run run') : Follows (named mode name run) (named mode name run') := by
  unfold named
  refine follows_get_bind fun c d hsilent => ?_
  obtain ⟨hdeps, hopen, -⟩ := Context.eq_of_silent hsilent
  rw [hdeps, hopen]
  cases c.deps.lookup name with
  | some schema => exact follows_pure _
  | none =>
      by_cases hentered : name ∈ c.resolving
      · simp only [if_pos hentered]
        exact (follows_record _ _).bind fun _ =>
          (follows_markRecursive name).bind fun _ => follows_pure _
      · simp only [if_neg hentered]
        refine h.within.bind fun schema => follows_get_bind fun after after' hafter => ?_
        rw [(Context.eq_of_silent hafter).2.2]
        by_cases hkept : mode = .share ∨ name ∈ after.recursive
        · simp only [if_pos hkept]
          exact (follows_record _ _).bind fun _ =>
            (follows_define name schema).bind fun _ => follows_pure _
        · simp only [if_neg hkept]
          exact follows_pure schema

theorem follows_reference (henv : env.Unwraps env') (hbody : BodiesFollow body body')
    (name : String) (arguments arguments' : List TypeExpr) :
    Follows (reference env policy body type name arguments)
      (reference env' policy body' type' name arguments') := by
  have hfound := henv.declarations name
  unfold reference
  generalize env.declarations name = found at hfound
  generalize env'.declarations name = found' at hfound
  refine (follows_record _ _).bind fun _ => ?_
  cases hfound with
  | nil => exact follows_fail _ _ _
  | @cons first first' _ _ head _ =>
      refine (follows_record _ _).bind fun _ => ?_
      have hnamed : Follows (named policy.mode first.qualifiedName (body first))
          (named policy.mode first'.qualifiedName (body' first')) := by
        rw [head.qualifiedName_eq]
        exact follows_named policy.mode first.qualifiedName (hbody head)
      cases head.rule with
      | enumMember same => exact follows_enumMember henv same
      | enum _ | interface _ => exact hnamed
      | typeAlias _ =>
          by_cases haliases : policy.aliases
          · simp only [if_pos haliases]
            exact hnamed
          · simp only [if_neg haliases]
            exact follows_fail _ _ _
      | other | foreign => exact follows_fail _ _ _

/-- One step, for type expressions with the same outermost node. -/
theorem follows_step (henv : env.Unwraps env') (hresolve : TypesFollow resolve resolve')
    (hbody : BodiesFollow body body')
    (h : type.Unwraps type') (bare : ∀ location inner, type ≠ .parenthesized location inner) :
    Follows (step env policy resolve body type) (step env' policy resolve' body' type') := by
  have hparts : ∀ {parts parts' : List TypeExpr}, List.Forall₂ TypeExpr.Unwraps parts parts' →
      Follows (parts.mapM resolve) (parts'.mapM resolve') :=
    fun hinner => follows_mapM (hinner.imp fun _ _ hpart => hresolve hpart)
  cases h.rule with
  | parenthesized _ => exact absurd rfl (bare _ _)
  | keyword => exact follows_keyword _ _ _
  | literal same => exact follows_literal henv same
  | array inner => exact (hresolve inner).bind fun schema => follows_pure _
  | union inner | intersection inner | tuple inner =>
      exact (hparts inner).bind fun schemas => follows_pure _
  | object inner => exact (follows_members hresolve [] inner).bind fun schemas => follows_pure _
  | reference => exact follows_reference henv hbody _ _ _
  | unsupported | foreign => exact follows_fail _ _ _

end Rules

/-- **The second run follows.** Taking off parentheses uses up a level of the first run only. -/
theorem typeWithin_follows {env env' : Environment} (henv : env.Unwraps env') (policy : Policy)
    {budget budget' : Nat} (hbudget : budget ≤ budget') {type type' : TypeExpr}
    (h : type.Unwraps type') :
    Follows (typeWithin env policy budget type) (typeWithin env' policy budget' type') := by
  induction budget generalizing budget' type type' with
  | zero => exact fun _ _ _ => .exceeded
  | succ budget ih =>
      by_cases hwrapped : ∃ location inner, type = .parenthesized location inner
      -- The second run stays where it is, with the whole of its budget.
      · obtain ⟨location, inner, rfl⟩ := hwrapped
        exact ih (Nat.le_of_succ_le hbudget) ⟨h.same, h.unwrapped⟩
      · obtain ⟨budget', rfl⟩ :=
          Nat.exists_eq_add_of_le' (Nat.le_trans (Nat.succ_pos budget) hbudget)
        have hinner : budget ≤ budget' := Nat.le_of_succ_le_succ hbudget
        have hresolve : TypesFollow (typeWithin env policy budget)
            (typeWithin env' policy budget') := fun _ _ hpart => ih hinner hpart
        exact follows_step henv hresolve
          (fun _ _ hfirst => follows_declaration henv hresolve hfirst) h (by simpa using hwrapped)

end Resolve

/-! ### Endings -/

section Endings

variable {declarations declarations' : List Declaration} {env : Environment} {type type' : TypeExpr}

/-- Where the first run does not exceed the depth, both have the same model or the same problem. -/
theorem resolveWithin_follows (policy : Policy) (budget : Nat)
    (henv : (Environment.ofTable (.ofList declarations)).Unwraps env) (h : type.Unwraps type')
    (hdeep : (resolveWithin budget (.ofTable (.ofList declarations)) policy type).1 ≠
      .error .depthExceeded) :
    let ending := (resolveWithin budget (.ofTable (.ofList declarations)) policy type).1
    let ending' := (resolveWithin budget env policy type').1
    (∃ model, ending = .ok model ∧ ending' = .ok model) ∨
      ∃ failure failure', ending = .error (.fault (.failure failure)) ∧
        ending' = .error (.fault (.failure failure')) ∧ failure'.problem = failure.problem := by
  intro ending ending'
  have hmatched := Resolve.typeWithin_follows henv policy (Nat.le_refl budget) h {} {} rfl
  simp only [ending, ending', resolveWithin] at hdeep ⊢
  cases hrun : Resolve.typeWithin (.ofTable (.ofList declarations)) policy budget type {} with
  | ok root c =>
      rw [hrun] at hmatched
      generalize Resolve.typeWithin env policy budget type' {} = result at hmatched
      cases hmatched with
      | ok _ silent =>
          refine .inl ⟨_, rfl, ?_⟩
          simp [(Context.eq_of_silent silent).1]
  | error reason c =>
      cases reason with
      | depthExceeded => simp [hrun] at hdeep
      | fault fault =>
          obtain ⟨node, -, hrefused⟩ := faulty_of_error hrun
          obtain ⟨failure, rfl⟩ := hrefused.exists_failure
          rw [hrun] at hmatched
          generalize Resolve.typeWithin env policy budget type' {} = result at hmatched
          cases hmatched with
          | interrupted unplaced =>
              obtain ⟨failure', rfl, hproblem⟩ := Interruption.exists_failure_of_unplaced unplaced
              exact .inr ⟨failure, failure', rfl, rfl, hproblem⟩

/-- **Spelling has no influence.** Two sources differ in parentheses, type arguments, the types that
interfaces extend and locations only, and the second one has no parentheses. Where the depth
suffices for the first one, both have the same model, or both fail with the same cause and
message. -/
theorem spelling_irrelevant (policy : Policy) (budget : Nat)
    (hdeclarations : declarations'.map Declaration.stripped = declarations.map Declaration.stripped)
    (htype : type'.stripped = type.stripped)
    (hunwrapped : type'.isUnwrapped ∧ ∀ declaration ∈ declarations', declaration.isUnwrapped)
    (hbudget : sufficientBudget declarations type ≤ budget) :
    let ending := (resolveWithin budget (.ofTable (.ofList declarations)) policy type).1
    let ending' := (resolveWithin budget (.ofTable (.ofList declarations')) policy type').1
    (∃ model, ending = .ok model ∧ ending' = .ok model) ∨
      ∃ failure failure', ending = .error (.fault (.failure failure)) ∧
        ending' = .error (.fault (.failure failure')) ∧ failure'.cause = failure.cause ∧
          failure'.message = failure.message := by
  intro ending ending'
  have henv := Environment.unwraps_ofTable hdeclarations hunwrapped.2
  have hdeep : ending ≠ .error .depthExceeded := resolveWithin_ne_depthExceeded hbudget
  obtain hok | ⟨failure, failure', hfailure, hfailure', hproblem⟩ :=
    resolveWithin_follows policy budget henv ⟨htype, hunwrapped.1⟩ hdeep
  · exact .inl hok
  · refine .inr ⟨failure, failure', hfailure, hfailure', ?_, ?_⟩
    · rw [Failure.cause, Failure.cause, hproblem]
    · rw [Failure.message, Failure.message, hproblem]

end Endings

/-! ### Examples -/

/-- Two declarations that lead to each other, with parentheses, type arguments and a base. -/
def dressed : List Declaration :=
  [.interface none "A" [.property none ⟨.identifier, "b", none⟩
      (some (.parenthesized none (.reference none "B" [.reference none "Missing" []]))) false]
    [⟨none, "Missing", []⟩],
   .typeAlias none "B" (.parenthesized none (.parenthesized none (.union none
     [.keyword none .null, .parenthesized none (.reference none "A" [])])))]

/-- The same without them, found elsewhere. -/
def undressed : List Declaration :=
  let place : Option Location := some ⟨"a.ts", 1, 2, ⟨"#", []⟩⟩
  [.interface place "A" [.property place ⟨.identifier, "b", place⟩
      (some (.reference place "B" [])) false] [],
   .typeAlias place "B" (.union place [.keyword place .null, .reference place "A" []])]

/-- With type aliases both have the same model; without them both fail at the reference to one. -/
theorem spelling_irrelevant_dressed :
    let place : Option Location := some ⟨"a.ts", 1, 2, ⟨"#", []⟩⟩
    let type : TypeExpr :=
      .parenthesized none (.reference none "A" [.unsupported none "MappedType"])
    let type' : TypeExpr := .reference place "A" []
    let schema : Schema := .object [.member "b" false (.union [.null, .reference "A"])]
    let ends aliases := (resolveWithin 15 (.ofTable (.ofList dressed)) ⟨.expand, aliases⟩ type).1
    let ends' aliases :=
      (resolveWithin 15 (.ofTable (.ofList undressed)) ⟨.expand, aliases⟩ type').1
    undressed.map Declaration.stripped = dressed.map Declaration.stripped ∧
      type'.stripped = type.stripped ∧
      (type'.isUnwrapped ∧ ∀ declaration ∈ undressed, declaration.isUnwrapped) ∧
      sufficientBudget dressed type ≤ 15 ∧
      ends true = .ok ⟨schema, [("A", schema)]⟩ ∧ ends' true = .ok ⟨schema, [("A", schema)]⟩ ∧
      ends false = .error (.fault (.failure ⟨.unsupportedReference "B" "type alias",
        some (.type (.reference none "B" [.reference none "Missing" []]))⟩)) ∧
      ∃ failure, ends' false = .error (.fault (.failure failure)) ∧
        failure.message = "Type reference 'B' to type alias is not implemented" := by
  intro place type type' schema ends ends'
  have hdeclarations : undressed.map Declaration.stripped = dressed.map Declaration.stripped := rfl
  have htype : type'.stripped = type.stripped := rfl
  have hunwrapped : type'.isUnwrapped ∧ ∀ declaration ∈ undressed, declaration.isUnwrapped := by
    decide
  have hbudget : sufficientBudget dressed type ≤ 15 := by decide
  have hmodel : ends true = .ok ⟨schema, [("A", schema)]⟩ := rfl
  have hfailure : ends false = .error (.fault (.failure ⟨.unsupportedReference "B" "type alias",
    some (.type (.reference none "B" [.reference none "Missing" []]))⟩)) := rfl
  refine ⟨hdeclarations, htype, hunwrapped, hbudget, hmodel, ?_, hfailure, ?_⟩
  · obtain ⟨model, hok, hok'⟩ | ⟨_, _, herror, -⟩ :=
      spelling_irrelevant ⟨.expand, true⟩ 15 hdeclarations htype hunwrapped hbudget
    · rw [← Except.ok.inj (hmodel.symm.trans hok)] at hok'
      exact hok'
    · exact absurd (hmodel.symm.trans herror) (by simp)
  · obtain ⟨_, hok, -⟩ | ⟨failure, failure', herror, herror', -, hmessage⟩ :=
      spelling_irrelevant ⟨.expand, false⟩ 15 hdeclarations htype hunwrapped hbudget
    · exact absurd (hfailure.symm.trans hok) (by simp)
    · refine ⟨failure', herror', ?_⟩
      rw [hmessage, show failure = ⟨.unsupportedReference "B" "type alias", _⟩ by
        simpa using (hfailure.symm.trans herror).symm]
      rfl

/-- **Parentheses count for the depth.** The first alias of a relay lies too deep, and without the
parentheses it does not. -/
theorem spelling_not_always_irrelevant :
    ¬ ∀ (declarations declarations' : List Declaration) (policy : Policy) (type type' : TypeExpr),
      declarations'.map Declaration.stripped = declarations.map Declaration.stripped →
      type'.stripped = type.stripped →
      (type'.isUnwrapped ∧ ∀ declaration ∈ declarations', declaration.isUnwrapped) →
      let resolve := resolveType Limits.usual.resolving
      let ends := resolve (.ofTable (.ofList declarations)) policy type []
      let ends' := resolve (.ofTable (.ofList declarations')) policy type' []
      (∀ model events, ends = .ok model events → ∃ events', ends' = .ok model events') ∧
        ∀ failure events, ends = .error (.failure failure) events →
          ∃ failure' events', ends' = .error (.failure failure') events' ∧
            failure'.cause = failure.cause ∧ failure'.message = failure.message := by
  intro h
  let type : TypeExpr := .reference none "A" []
  let links : List Declaration := (relay relayNames).map Declaration.stripped
  let exceeds : Except Interruption Model → Bool
    | .error .depthExceeded => true
    | _ => false
  have hdeep : exceeds (resolveWithin Limits.usual.resolving (.ofTable (.ofList (relay relayNames)))
      ⟨.expand, true⟩ type).1 = true := by decide +kernel
  have hok : (resolveWithin Limits.usual.resolving (.ofTable (.ofList links))
      ⟨.expand, true⟩ type).1.isOk = true := by decide +kernel
  have hlinks : links.map Declaration.stripped = links := by
    simp only [links, List.map_map, Function.comp_def, Declaration.stripped_stripped]
  have hunwrapped : ∀ declaration ∈ links, declaration.isUnwrapped := by
    intro declaration mem
    obtain ⟨source, -, rfl⟩ := List.mem_map.mp mem
    exact source.isUnwrapped_stripped
  obtain ⟨-, hfails⟩ :=
    h (relay relayNames) links ⟨.expand, true⟩ type type hlinks rfl ⟨rfl, hunwrapped⟩
  unfold resolveType at hfails
  cases hrun : (resolveWithin Limits.usual.resolving (.ofTable (.ofList (relay relayNames)))
      ⟨.expand, true⟩ type).1 with
  | ok model => simp [hrun, exceeds] at hdeep
  | error reason =>
      cases reason with
      | fault fault => simp [hrun, exceeds] at hdeep
      | depthExceeded =>
          cases hrun' : (resolveWithin Limits.usual.resolving (.ofTable (.ofList links))
              ⟨.expand, true⟩ type).1 with
          | error reason => simp [hrun', Except.isOk, Except.toBool] at hok
          | ok model => simp [hrun, hrun', Interruption.toFault] at hfails

end TypeSchema
