import TypeSchema.Proofs.Resolution.Success
import TypeSchema.Source.Nesting

/-!
# Computations that settle alike

Two resolutions of the same type expression may differ in how deep they are allowed to go and in
what they check on the way. Where neither of them runs out of depth or fails a check, they end
alike. That is stated here for the open declarations from which they start, since nothing else in
the state decides how deep a resolution goes, and proved rule by rule.
-/

namespace TypeSchema.Resolve

/-- From every state with the given open declarations, both computations end alike and not for want
of depth, and when they succeed the same declarations are open again. -/
def Settles {α : Type} (names : List String) (m m' : Resolve α) : Prop :=
  ∀ c, c.resolving = names → m' c = m c ∧ (∀ c', m c ≠ .error .depthExceeded c') ∧
    ∀ a c', m c = .ok a c' → c'.resolving = names

section Computations

variable {α β : Type} {names : List String} {m m' : Resolve α} {f f' : α → Resolve β}

/-- A computation that neither goes deeper nor touches the open declarations settles by itself. -/
theorem settles_self (hdeep : ∀ c c', m c ≠ .error .depthExceeded c')
    (hopen : ∀ c a c', m c = .ok a c' → c'.resolving = c.resolving) : Settles names m m := by
  intro c hc
  refine ⟨rfl, hdeep c, ?_⟩
  intro a c' h
  rw [hopen c a c' h, hc]

theorem settles_pure (a : α) : Settles names (pure a) (pure a) := by
  apply settles_self
  · intro c c' h
    cases h
  · intro c a' c' h
    cases h
    rfl

theorem settles_throw {fault : Fault} : Settles names (throw (.fault fault) : Resolve α)
    (throw (.fault fault)) := by
  apply settles_self
  · intro c c' h
    cases h
  · intro c a c' h
    cases h

theorem settles_fail (problem : Problem) (node : Node) :
    Settles names (fail problem node : Resolve α) (fail problem node) :=
  settles_throw

theorem settles_ofExcept (x : Except Failure α) : Settles names (ofExcept x) (ofExcept x) := by
  cases x with
  | error failure => exact settles_throw
  | ok a => exact settles_pure a

theorem settles_ofInteger (x : Except Json.IntegerProblem α) :
    Settles names (ofInteger x) (ofInteger x) := by
  cases x with
  | error problem => exact settles_throw
  | ok a => exact settles_pure a

/-- What changes the state without touching the open declarations. -/
theorem settles_modify {change : Context → Context}
    (h : ∀ c, (change c).resolving = c.resolving) :
    Settles names (modify change : Resolve Unit) (modify change) := by
  apply settles_self
  · intro c c' hrun
    cases hrun
  · intro c a c' hrun
    cases hrun
    exact h c

theorem settles_record (events : List Event) : Settles names (record events) (record events) :=
  settles_modify fun _ => rfl

theorem settles_markRecursive (name : String) :
    Settles names (markRecursive name) (markRecursive name) :=
  settles_modify fun _ => rfl

theorem settles_define (name : String) (schema : Schema) :
    Settles names (define name schema) (define name schema) :=
  settles_modify fun _ => rfl

theorem Settles.bind (h : Settles names m m') (hf : ∀ a, Settles names (f a) (f' a)) :
    Settles names (m >>= f) (m' >>= f') := by
  intro c hc
  obtain ⟨heq, hdeep, hnames⟩ := h c hc
  have hrun : (m >>= f) c = EStateM.bind m f c := rfl
  have hrun' : (m' >>= f') c = EStateM.bind m' f' c := rfl
  rw [hrun, hrun', EStateM.bind, EStateM.bind, heq]
  cases hm : m c with
  | ok a middle => exact hf a middle (hnames a middle hm)
  | error interruption middle =>
      refine ⟨rfl, ?_, ?_⟩
      · intro c' h
        cases h
        exact hdeep middle hm
      · intro a c' h
        cases h

theorem settles_get_bind {f f' : Context → Resolve β}
    (h : ∀ c, c.resolving = names → Settles names (f c) (f' c)) :
    Settles names (get >>= f) (get >>= f') :=
  fun c hc => h c hc c hc

theorem settles_within {name : String} (h : Settles (name :: names) m m') :
    Settles names (within name m) (within name m') := by
  intro c hc
  obtain ⟨heq, hdeep, hnames⟩ := h (c.enter name) (by rw [Context.enter_resolving, hc])
  rw [within, within, heq]
  cases hm : m (c.enter name) with
  | ok a after =>
      refine ⟨rfl, ?_, ?_⟩
      · intro c' h
        cases h
      · intro a' c' h
        cases h
        rw [Context.leave_resolving, hnames a after hm, List.tail_cons]
  | error interruption after =>
      refine ⟨rfl, ?_, ?_⟩
      · intro c' h
        cases h
        exact hdeep after hm
      · intro a c' h
        cases h

theorem settles_mapM {xs : List α} (each : ∀ x ∈ xs, Settles names (f x) (f' x)) :
    Settles names (xs.mapM f) (xs.mapM f') := by
  induction xs with
  | nil => exact settles_pure []
  | cons x xs ih =>
      rw [List.mapM_cons, List.mapM_cons]
      apply (each x List.mem_cons_self).bind
      intro y
      apply (ih fun x hx => each x (List.mem_cons_of_mem _ hx)).bind
      intro ys
      exact settles_pure _

end Computations

/-! ### The rules of resolution -/

section Rules

variable {env : Environment} {policy : Policy} {names : List String}
  {resolve resolve' : TypeExpr → Resolve Schema} {body body' : Declaration → Resolve Schema}

theorem settles_keyword (type : TypeExpr) (word : Keyword) :
    Settles names (keyword type word) (keyword type word) := by
  unfold keyword
  cases word.schema? with
  | none => exact settles_fail _ _
  | some schema => exact settles_pure schema

theorem settles_literal (type : TypeExpr) (expression : Literal) :
    Settles names (literal env type expression) (literal env type expression) := by
  unfold literal
  cases expression.kind with
  | null | trueLiteral | falseLiteral => exact settles_pure _
  | string | numeric =>
      apply (settles_ofExcept _).bind
      intro evaluated
      exact settles_ofExcept _
  | bigInt =>
      apply (settles_ofExcept _).bind
      intro evaluated
      by_cases hflag : TypeFlag.bigIntLiteral ∈ evaluated.flags
      · rw [if_pos hflag]
        apply (settles_ofInteger _).bind
        intro value
        exact settles_pure _
      · rw [if_neg hflag]
        exact settles_fail _ _
  | _ => exact settles_fail _ _

theorem settles_enumMember (member : EnumMember) :
    Settles names (enumMember env member) (enumMember env member) := by
  unfold enumMember
  apply (settles_ofExcept _).bind
  intro text
  apply (settles_record _).bind
  intro _
  dsimp only
  cases (env.evaluateMember member).literalSchema? with
  | none => exact settles_fail _ _
  | some schema => exact settles_pure _

theorem settles_member {member : Member}
    (each : ∀ type : TypeExpr, type.depth ≤ member.depth →
      Settles names (resolve type) (resolve' type)) :
    Settles names (Resolve.member resolve member) (Resolve.member resolve' member) := by
  cases member with
  | property location name type optional =>
      cases type with
      | none => exact settles_fail _ _
      | some type =>
          apply (settles_ofExcept _).bind
          intro text
          apply (each type Nat.le.refl).bind
          intro schema
          exact settles_pure _
  | index location parameter key type =>
      cases type with
      | none => exact settles_fail _ _
      | some type => exact settles_fail _ _
  | other _ _ _ | foreign _ _ => exact settles_fail _ _

theorem settles_members {seen : List String} {members : List Member}
    (each : ∀ type : TypeExpr, type.depth ≤ Member.depthOfAll members →
      Settles names (resolve type) (resolve' type)) :
    Settles names (Resolve.members resolve seen members)
      (Resolve.members resolve' seen members) := by
  induction members generalizing seen with
  | nil => exact settles_pure []
  | cons first rest ih =>
      have hfirst : first.depth ≤ Member.depthOfAll (first :: rest) := Nat.le_max_left _ _
      have hrest : Member.depthOfAll rest ≤ Member.depthOfAll (first :: rest) :=
        Nat.le_max_right _ _
      rw [Resolve.members, Resolve.members]
      apply (settles_member fun type htype => each type (Nat.le_trans htype hfirst)).bind
      intro entry
      obtain ⟨text, schema⟩ := entry
      by_cases hseen : text ∈ seen
      · simp only [if_pos hseen]
        exact settles_fail _ _
      · simp only [if_neg hseen]
        apply (ih fun type htype => each type (Nat.le_trans htype hrest)).bind
        intro others
        exact settles_pure _

theorem settles_declaration {declaration : Declaration}
    (each : ∀ type : TypeExpr, type.depth ≤ declaration.depth →
      Settles names (resolve type) (resolve' type)) :
    Settles names (Resolve.declaration env resolve declaration)
      (Resolve.declaration env resolve' declaration) := by
  cases declaration with
  | enum location name members =>
      apply (settles_mapM fun member _ => settles_enumMember member).bind
      intro schemas
      exact settles_pure _
  | interface location name members bases =>
      apply (settles_record _).bind
      intro _
      apply (settles_members each).bind
      intro schemas
      exact settles_pure _
  | typeAlias location name type => exact each type Nat.le.refl
  | _ => exact settles_fail _ _

/-- A declaration that is open already is not entered again, so its body is resolved only where one
more declaration is open. -/
theorem settles_named {mode : ReferenceMode} {name : String} {m m' : Resolve Schema}
    (h : name ∉ names → Settles (name :: names) m m') :
    Settles names (named mode name m) (named mode name m') := by
  apply settles_get_bind
  intro before hbefore
  cases before.deps.lookup name with
  | some schema => exact settles_pure _
  | none =>
      by_cases hentered : name ∈ before.resolving
      · simp only [if_pos hentered]
        apply (settles_record _).bind
        intro _
        apply (settles_markRecursive name).bind
        intro _
        exact settles_pure _
      · simp only [if_neg hentered]
        apply (settles_within (h (hbefore ▸ hentered))).bind
        intro schema
        apply settles_get_bind
        intro after _
        by_cases hkept : mode = .share ∨ name ∈ after.recursive
        · simp only [if_pos hkept]
          apply (settles_record _).bind
          intro _
          apply (settles_define name schema).bind
          intro _
          exact settles_pure _
        · simp only [if_neg hkept]
          exact settles_pure _

theorem settles_reference {type : TypeExpr} {name : String} {arguments : List TypeExpr}
    (hbody : ∀ first others, env.declarations name = first :: others →
      first.isFollowed policy.aliases → first.qualifiedName ∉ names →
        Settles (first.qualifiedName :: names) (body first) (body' first)) :
    Settles names (reference env policy body type name arguments)
      (reference env policy body' type name arguments) := by
  unfold reference
  apply (settles_record _).bind
  intro _
  cases hfound : env.declarations name with
  | nil => exact settles_fail _ _
  | cons first others =>
      apply (settles_record _).bind
      intro _
      have hfollowed := hbody first others hfound
      cases first with
      | enumMember member => exact settles_enumMember member
      | enum _ _ _ | interface _ _ _ _ => exact settles_named (hfollowed rfl)
      | typeAlias _ _ _ =>
          by_cases haliases : policy.aliases
          · simp only [if_pos haliases]
            exact settles_named (hfollowed haliases)
          · simp only [if_neg haliases]
            exact settles_fail _ _
      | other _ _ _ | foreign _ _ _ => exact settles_fail _ _

/-- One step settles when the resolution of everything inside the type expression does, and the
bodies of declarations do below one more open declaration. -/
theorem settles_step {type : TypeExpr}
    (hresolve : ∀ inner : TypeExpr, inner.depth < type.depth →
      Settles names (resolve inner) (resolve' inner))
    (hbody : ∀ name first others, env.declarations name = first :: others →
      first.isFollowed policy.aliases → first.qualifiedName ∉ names →
        Settles (first.qualifiedName :: names) (body first) (body' first)) :
    Settles names (step env policy resolve body type) (step env policy resolve' body' type) := by
  have hparts : ∀ {parts : List TypeExpr}, TypeExpr.depthOfAll parts < type.depth →
      Settles names (parts.mapM resolve) (parts.mapM resolve') := by
    intro parts hdepth
    apply settles_mapM
    intro part hpart
    exact hresolve part (Nat.lt_of_le_of_lt (TypeExpr.depth_le_depthOfAll hpart) hdepth)
  cases type with
  | keyword location word => exact settles_keyword _ word
  | literal location expression => exact settles_literal _ expression
  | array location element =>
      apply (hresolve element (Nat.lt_succ_self _)).bind
      intro schema
      exact settles_pure _
  | union location parts | intersection location parts =>
      apply (hparts (Nat.lt_succ_self _)).bind
      intro schemas
      exact settles_pure _
  | parenthesized location inner => exact hresolve inner (Nat.lt_succ_self _)
  | tuple location elements =>
      apply (hparts (Nat.lt_succ_self _)).bind
      intro schemas
      exact settles_pure _
  | object location members =>
      apply (settles_members fun inner hinner =>
        hresolve inner (Nat.lt_succ_of_le hinner)).bind
      intro schemas
      exact settles_pure _
  | reference location name arguments => exact settles_reference (hbody name)
  | unsupported _ _ | foreign _ _ => exact settles_fail _ _

end Rules

end TypeSchema.Resolve
