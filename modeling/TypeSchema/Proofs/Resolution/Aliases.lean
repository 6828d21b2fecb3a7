import TypeSchema.Proofs.Resolution.Success

/-!
# Type aliases are conservative

References to type aliases are refused, or they are followed like references to interfaces. Nothing
else in a resolution depends on which of the two it is. So a resolution that refuses type aliases
and one that follows them do the same, step by step, up to the first reference to a type alias; and
there the one that refuses ends. Whatever it ends with otherwise, the other one ends with as well.
-/

namespace TypeSchema

/-- The reason is that a reference leads to a type alias. -/
inductive Environment.RefusesAlias (env : Environment) : Interruption → Prop
  | reference {location declared : Option Location} {name qualifiedName : String}
      {arguments : List TypeExpr} {type : TypeExpr} {others : List Declaration}
      (found : env.declarations name = .typeAlias declared qualifiedName type :: others) :
      RefusesAlias env (.fault (.failure ⟨.unsupportedReference name
        (Declaration.typeAlias declared qualifiedName type).description,
          some (.type (.reference location name arguments))⟩))

namespace Resolve

/-- The second computation does the same as the first one from every state, unless the first one is
interrupted for one of the reasons. -/
def SameUnless {α : Type} (refused : Interruption → Prop) (m m' : Resolve α) : Prop :=
  ∀ c, m' c = m c ∨ ∃ reason c', m c = .error reason c' ∧ refused reason

section Computations

variable {α β : Type} {refused : Interruption → Prop} {m m' : Resolve α} {f f' : α → Resolve β}

theorem SameUnless.refl (m : Resolve α) : SameUnless refused m m :=
  fun _ => .inl rfl

theorem SameUnless.of_throw {reason : Interruption} (h : refused reason) :
    SameUnless refused (throw reason) m' :=
  fun c => .inr ⟨reason, c, rfl, h⟩

theorem SameUnless.bind (h : SameUnless refused m m') (hf : ∀ a, SameUnless refused (f a) (f' a)) :
    SameUnless refused (m >>= f) (m' >>= f') := by
  intro c
  have hrun : (m >>= f) c = EStateM.bind m f c := rfl
  have hrun' : (m' >>= f') c = EStateM.bind m' f' c := rfl
  rw [hrun, hrun', EStateM.bind, EStateM.bind]
  obtain hsame | ⟨reason, c', hinterrupted, hrefused⟩ := h c
  · rw [hsame]
    cases m c with
    | ok a middle => exact hf a middle
    | error interruption middle => exact .inl rfl
  · rw [hinterrupted]
    exact .inr ⟨reason, c', rfl, hrefused⟩

theorem SameUnless.get_bind {f f' : Context → Resolve β}
    (h : ∀ c, SameUnless refused (f c) (f' c)) :
    SameUnless refused (get >>= f) (get >>= f') :=
  fun c => h c c

theorem SameUnless.within {name : String} (h : SameUnless refused m m') :
    SameUnless refused (within name m) (within name m') := by
  intro c
  obtain hsame | ⟨reason, c', hinterrupted, hrefused⟩ := h (c.enter name)
  · left
    rw [Resolve.within, Resolve.within, hsame]
  · right
    refine ⟨reason, c'.leave, ?_, hrefused⟩
    rw [Resolve.within, hinterrupted]

theorem SameUnless.mapM (h : ∀ a, SameUnless refused (f a) (f' a)) (xs : List α) :
    SameUnless refused (xs.mapM f) (xs.mapM f') := by
  induction xs with
  | nil => exact .refl _
  | cons x xs ih =>
      rw [List.mapM_cons, List.mapM_cons]
      apply (h x).bind
      intro y
      apply ih.bind
      intro ys
      exact .refl _

end Computations

/-! ### The rules of resolution -/

section Rules

variable {env : Environment} {mode : ReferenceMode} {refused : Interruption → Prop}
  {resolve resolve' : TypeExpr → Resolve Schema} {body body' : Declaration → Resolve Schema}

theorem member_sameUnless (h : ∀ type, SameUnless refused (resolve type) (resolve' type))
    (member : Member) :
    SameUnless refused (Resolve.member resolve member) (Resolve.member resolve' member) := by
  cases member with
  | property location name type optional =>
      cases type with
      | none => exact .refl _
      | some type =>
          apply (SameUnless.refl _).bind
          intro text
          apply (h type).bind
          intro schema
          exact .refl _
  | index location parameter key type => cases type <;> exact .refl _
  | other _ _ _ | foreign _ _ => exact .refl _

theorem members_sameUnless (h : ∀ type, SameUnless refused (resolve type) (resolve' type))
    (seen : List String) (members : List Member) :
    SameUnless refused (Resolve.members resolve seen members)
      (Resolve.members resolve' seen members) := by
  induction members generalizing seen with
  | nil => exact .refl _
  | cons first rest ih =>
      rw [Resolve.members, Resolve.members]
      apply (member_sameUnless h first).bind
      intro entry
      obtain ⟨name, schema⟩ := entry
      by_cases hseen : name ∈ seen
      · simp only [if_pos hseen]
        exact .refl _
      · simp only [if_neg hseen]
        apply (ih _).bind
        intro others
        exact .refl _

theorem declaration_sameUnless (h : ∀ type, SameUnless refused (resolve type) (resolve' type))
    (declaration : Declaration) :
    SameUnless refused (Resolve.declaration env resolve declaration)
      (Resolve.declaration env resolve' declaration) := by
  cases declaration with
  | interface location name members bases =>
      apply (SameUnless.refl _).bind
      intro _
      apply (members_sameUnless h [] members).bind
      intro schemas
      exact .refl _
  | typeAlias location name type => exact h type
  | enum _ _ _ | enumMember _ | other _ _ _ | foreign _ _ _ => exact .refl _

theorem named_sameUnless {name : String} {run run' : Resolve Schema}
    (h : SameUnless refused run run') :
    SameUnless refused (named mode name run) (named mode name run') := by
  unfold named
  apply SameUnless.get_bind
  intro before
  cases before.deps.lookup name with
  | some schema => exact .refl _
  | none =>
      by_cases hopen : name ∈ before.resolving
      · simp only [if_pos hopen]
        exact .refl _
      · simp only [if_neg hopen]
        apply h.within.bind
        intro schema
        exact .refl _

/-- A reference to a type alias is where the two may part. -/
theorem reference_sameUnless
    (h : ∀ declaration, SameUnless env.RefusesAlias (body declaration) (body' declaration))
    (location : Option Location) (name : String) (arguments : List TypeExpr) :
    SameUnless env.RefusesAlias
      (reference env ⟨mode, false⟩ body (.reference location name arguments) name arguments)
      (reference env ⟨mode, true⟩ body' (.reference location name arguments) name arguments) := by
  unfold reference
  apply (SameUnless.refl _).bind
  intro _
  cases hfound : env.declarations name with
  | nil => exact .refl _
  | cons first others =>
      apply (SameUnless.refl _).bind
      intro _
      cases first with
      | enum _ _ _ | interface _ _ _ _ => exact named_sameUnless (h _)
      | typeAlias _ _ _ => exact .of_throw (.reference hfound)
      | enumMember _ | other _ _ _ | foreign _ _ _ => exact .refl _

theorem step_sameUnless
    (h : ∀ type, SameUnless env.RefusesAlias (resolve type) (resolve' type))
    (hbody : ∀ declaration, SameUnless env.RefusesAlias (body declaration) (body' declaration))
    (type : TypeExpr) :
    SameUnless env.RefusesAlias (step env ⟨mode, false⟩ resolve body type)
      (step env ⟨mode, true⟩ resolve' body' type) := by
  cases type with
  | array location element =>
      apply (h element).bind
      intro schema
      exact .refl _
  | union location parts | intersection location parts | tuple location parts =>
      apply (SameUnless.mapM h parts).bind
      intro schemas
      exact .refl _
  | parenthesized location inner => exact h inner
  | object location members =>
      apply (members_sameUnless h [] members).bind
      intro schemas
      exact .refl _
  | reference location name arguments => exact reference_sameUnless hbody location name arguments
  | keyword _ _ | literal _ _ | unsupported _ _ | foreign _ _ => exact .refl _

/-- **The same up to the first type alias**, at every depth and from every state. -/
theorem typeWithin_sameUnless (budget : Nat) (type : TypeExpr) :
    SameUnless env.RefusesAlias (typeWithin env ⟨mode, false⟩ budget type)
      (typeWithin env ⟨mode, true⟩ budget type) := by
  induction budget generalizing type with
  | zero => exact .refl _
  | succ budget ih =>
      rw [typeWithin, typeWithin]
      exact step_sameUnless ih (declaration_sameUnless ih) type

end Rules

end Resolve

/-- Models, reasons of failure and events are the same. -/
theorem resolveWithin_eq_or_refusesAlias (budget : Nat) (env : Environment) (mode : ReferenceMode)
    (type : TypeExpr) :
    resolveWithin budget env ⟨mode, true⟩ type = resolveWithin budget env ⟨mode, false⟩ type ∨
      ∃ reason, (resolveWithin budget env ⟨mode, false⟩ type).1 = .error reason ∧
        env.RefusesAlias reason := by
  unfold resolveWithin
  obtain hsame | ⟨reason, c, hinterrupted, hrefused⟩ :=
    @Resolve.typeWithin_sameUnless env mode budget type {}
  · left
    rw [hsame]
  · right
    refine ⟨reason, ?_, hrefused⟩
    rw [hinterrupted]

/-- **Type aliases are conservative.** What is resolved without type aliases has the same model with
them. What fails without them fails with them for the same reason, with the same cause, message and
node, unless the reason was a reference to a type alias. -/
theorem aliases_conservative (budget : Nat) (declarations : List Declaration)
    (mode : ReferenceMode) (type : TypeExpr) :
    let env : Environment := .ofTable (.ofList declarations)
    let disabled := (resolveWithin budget env ⟨mode, false⟩ type).1
    let enabled := (resolveWithin budget env ⟨mode, true⟩ type).1
    (∀ model, disabled = .ok model → enabled = .ok model) ∧
      ∀ reason, disabled = .error reason → ¬ env.RefusesAlias reason →
        enabled = .error reason := by
  intro env disabled enabled
  obtain hsame | ⟨refusal, hrefusal, hrefused⟩ :=
    resolveWithin_eq_or_refusesAlias budget env mode type
  · have hequal : enabled = disabled := congrArg Prod.fst hsame
    rw [hequal]
    exact ⟨fun _ h => h, fun _ h _ => h⟩
  · refine ⟨fun model hmodel => ?_, fun reason hreason hother => ?_⟩
    · cases hmodel.symm.trans hrefusal
    · cases hreason.symm.trans hrefusal
      exact absurd hrefused hother

/-- A reference to nothing fails before a type alias is met, with type aliases as without them. -/
theorem aliases_conservative_unresolved :
    let declarations : List Declaration :=
      [.interface none "A" [] [], .typeAlias none "L" (.keyword none .string)]
    let env : Environment := .ofTable (.ofList declarations)
    let resolved : TypeExpr := .array none (.reference none "A" [])
    let missing : TypeExpr := .reference none "X" []
    let unresolved : TypeExpr := .union none [missing, .reference none "L" []]
    let reason : Interruption :=
      .fault (.failure ⟨.unresolvedReference "X", some (.type missing)⟩)
    ((resolveWithin 4 env ⟨.share, false⟩ resolved).1 =
        .ok ⟨.array (.reference "A"), [("A", .object [])]⟩ ∧
      (resolveWithin 4 env ⟨.share, true⟩ resolved).1 =
        .ok ⟨.array (.reference "A"), [("A", .object [])]⟩) ∧
      (resolveWithin 4 env ⟨.share, false⟩ unresolved).1 = .error reason ∧
      (resolveWithin 4 env ⟨.share, true⟩ unresolved).1 = .error reason := by
  intro declarations env resolved missing unresolved reason
  have hresolved : (resolveWithin 4 env ⟨.share, false⟩ resolved).1 =
      .ok ⟨.array (.reference "A"), [("A", .object [])]⟩ := rfl
  have hunresolved : (resolveWithin 4 env ⟨.share, false⟩ unresolved).1 = .error reason := rfl
  have hother : ¬ env.RefusesAlias reason := by
    change ¬ env.RefusesAlias (.fault (.failure ⟨.unresolvedReference "X", _⟩))
    rintro ⟨⟩
  exact ⟨⟨hresolved, (aliases_conservative 4 declarations .share resolved).1 _ hresolved⟩,
    hunresolved, (aliases_conservative 4 declarations .share unresolved).2 _ hunresolved hother⟩

end TypeSchema
