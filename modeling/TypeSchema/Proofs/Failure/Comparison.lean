import TypeSchema.Proofs.Failure.Refusal
import TypeSchema.Proofs.Reachability.Basic

/-!
# Comparing two runs

Two resolutions of the same type expression that are run from paired states can be compared step by
step: either both go on and end in paired states, or both are interrupted for the same reason. The
results are not compared, as nothing that follows depends on them; only the names of members decide
whether a body is refused. Some interruptions of the first run are waived: then nothing is said
about the second one.

The rules of resolution are gone through once. What a comparison still has to bring along is how
references to declarations compare, since these alone look at the state.
-/

namespace TypeSchema

/-- Which states are paired, which interruptions both runs may end with and which the first run may
end with by itself. -/
structure Comparison where
  paired : Context → Context → Prop
  allowed : Interruption → Prop
  waived : Interruption → Prop
  note : ∀ {c d : Context} (events : List Event), paired c d →
    paired (c.note events) (d.note events)

namespace Comparison

/-- How the ends of two runs compare. -/
inductive Alike (k : Comparison) {α β : Type} (R : α → β → Prop) :
    EStateM.Result Interruption Context α → EStateM.Result Interruption Context β → Prop
  | ok {a : α} {b : β} {c d : Context} (related : R a b) (paired : k.paired c d) :
      Alike k R (.ok a c) (.ok b d)
  | interrupted {reason : Interruption} {c d : Context} (allowed : k.allowed reason) :
      Alike k R (.error reason c) (.error reason d)
  | waived {reason : Interruption} {c : Context} {result : EStateM.Result Interruption Context β}
      (waived : k.waived reason) : Alike k R (.error reason c) result

/-- From paired states the two computations end alike. -/
def Relates (k : Comparison) {α β : Type} (R : α → β → Prop) (m : Resolve α) (m' : Resolve β) :
    Prop :=
  ∀ c d, k.paired c d → k.Alike R (m c) (m' d)

/-- Results that are not compared. -/
def anyhow {α β : Type} (_ : α) (_ : β) : Prop := True

section Computations

variable {k : Comparison} {α β γ δ : Type} {R : α → β → Prop} {S : γ → δ → Prop} {m : Resolve α}
  {m' : Resolve β} {f : α → Resolve γ} {f' : β → Resolve δ}

theorem relates_pure {a : α} {b : β} (h : R a b) : k.Relates R (pure a) (pure b) :=
  fun _ _ hpaired => .ok h hpaired

theorem relates_throw {reason : Interruption} (h : k.allowed reason) :
    k.Relates R (throw reason) (throw reason) :=
  fun _ _ _ => .interrupted h

theorem relates_fail {problem : Problem} {node : Node}
    (h : k.allowed (.fault (.failure ⟨problem, some node⟩))) :
    k.Relates R (Resolve.fail problem node) (Resolve.fail problem node) :=
  relates_throw h

theorem relates_ofExcept {x : Except Failure α}
    (h : ∀ failure, x = .error failure → k.allowed (.fault (.failure failure))) :
    k.Relates (fun a b => a = b ∧ x = .ok a) (Resolve.ofExcept x) (Resolve.ofExcept x) := by
  cases x with
  | error failure => exact relates_throw (h failure rfl)
  | ok a => exact relates_pure ⟨rfl, rfl⟩

theorem relates_ofInteger {x : Except Json.IntegerProblem α}
    (h : ∀ problem, x = .error problem → k.allowed (.fault (.notInteger problem))) :
    k.Relates Eq (Resolve.ofInteger x) (Resolve.ofInteger x) := by
  cases x with
  | error problem => exact relates_throw (h problem rfl)
  | ok a => exact relates_pure rfl

theorem relates_record (events : List Event) :
    k.Relates anyhow (Resolve.record events) (Resolve.record events) :=
  fun _ _ hpaired => .ok trivial (k.note events hpaired)

theorem Relates.bind (h : k.Relates R m m') (hf : ∀ a b, R a b → k.Relates S (f a) (f' b)) :
    k.Relates S (m >>= f) (m' >>= f') := by
  intro c d hpaired
  have hrun : (m >>= f) c = EStateM.bind m f c := rfl
  have hrun' : (m' >>= f') d = EStateM.bind m' f' d := rfl
  have halike := h c d hpaired
  rw [hrun, hrun', EStateM.bind, EStateM.bind]
  generalize m c = result at halike
  generalize m' d = result' at halike
  cases halike with
  | ok related paired => exact hf _ _ related _ _ paired
  | interrupted allowed => exact .interrupted allowed
  | waived waived => exact .waived waived

theorem relates_mapM {ι : Type} {f f' : ι → Resolve α} {xs : List ι}
    (each : ∀ x ∈ xs, k.Relates anyhow (f x) (f' x)) :
    k.Relates anyhow (xs.mapM f) (xs.mapM f') := by
  induction xs with
  | nil => exact relates_pure trivial
  | cons x xs ih =>
      rw [List.mapM_cons, List.mapM_cons]
      apply (each x List.mem_cons_self).bind
      intro y y' _
      apply (ih fun x hx => each x (List.mem_cons_of_mem _ hx)).bind
      intro ys ys' _
      exact relates_pure trivial

end Computations

/-! ### The rules of resolution -/

/-- Both runs may end with what a node is refused for. -/
def Allows (k : Comparison) (env : Environment) (aliases : Bool) (node : Node) : Prop :=
  ∀ fault, node.Refused env aliases fault → k.allowed (.fault fault)

section Rules

variable {k : Comparison} {env : Environment} {aliases : Bool}
  {resolve resolve' : TypeExpr → Resolve Schema} {body body' : Declaration → Resolve Schema}

theorem relates_keyword {location : Option Location} {word : Keyword}
    (h : k.Allows env aliases (.type (.keyword location word))) :
    k.Relates anyhow (Resolve.keyword (.keyword location word) word)
      (Resolve.keyword (.keyword location word) word) := by
  unfold Resolve.keyword
  cases hword : word.schema? with
  | none => exact relates_fail (h _ (.keyword hword))
  | some schema => exact relates_pure trivial

theorem relates_literal {location : Option Location} {expression : Literal}
    (h : k.Allows env aliases (.type (.literal location expression))) :
    k.Relates anyhow (Resolve.literal env (.literal location expression) expression)
      (Resolve.literal env (.literal location expression) expression) := by
  have hallowed : ∀ fault, expression.Refused env (.type (.literal location expression)) fault →
      k.allowed (.fault fault) := fun fault hrefused => h fault (.literal hrefused)
  unfold Resolve.literal
  cases hkind : expression.kind with
  | null | trueLiteral | falseLiteral => exact relates_pure trivial
  | string | numeric =>
      apply (relates_ofExcept fun failure hread =>
        hallowed _ (.unread (by simp [hkind]) hread)).bind
      rintro evaluated _ ⟨rfl, hread⟩
      unfold Evaluated.literalSchema
      cases hvalue : evaluated.literalSchema? with
      | none => exact relates_fail (hallowed _ (.notLiteral (by simp [hkind]) hread hvalue))
      | some schema => exact relates_pure trivial
  | bigInt =>
      apply (relates_ofExcept fun failure hread =>
        hallowed _ (.unread (by simp [hkind]) hread)).bind
      rintro evaluated _ ⟨rfl, hread⟩
      by_cases hflag : TypeFlag.bigIntLiteral ∈ evaluated.flags
      · rw [if_pos hflag]
        apply (relates_ofInteger fun problem hbroken =>
          hallowed _ (.notInteger hkind hread hflag hbroken)).bind
        intro _ _ _
        exact relates_pure trivial
      · rw [if_neg hflag]
        exact relates_fail (hallowed _ (.notBigInt hkind hread hflag))
  | _ => exact relates_fail (hkind ▸ hallowed _ (.unsupported (by simp [hkind])))

theorem relates_enumMember {member : EnumMember}
    (h : ∀ failure, member.Refused env failure → k.allowed (.fault (.failure failure))) :
    k.Relates anyhow (Resolve.enumMember env member) (Resolve.enumMember env member) := by
  unfold Resolve.enumMember
  apply (relates_ofExcept fun failure hname => h _ (.name hname)).bind
  rintro text _ ⟨rfl, -⟩
  apply (relates_record _).bind
  intro _ _ _
  dsimp only
  cases hvalue : (env.evaluateMember member).literalSchema? with
  | none => exact relates_fail (h _ (.value hvalue))
  | some schema => exact relates_pure trivial

theorem relates_member {member : Member}
    (h : ∀ failure, member.Refused failure → k.allowed (.fault (.failure failure)))
    (hinner : ∀ inner, member.type? = some inner →
      k.Relates anyhow (resolve inner) (resolve' inner)) :
    k.Relates (fun x y => x.1 = y.1 ∧ member.name? = some x.1) (Resolve.member resolve member)
      (Resolve.member resolve' member) := by
  cases member with
  | property location name type optional =>
      cases type with
      | none => exact relates_fail (h _ .untypedProperty)
      | some type =>
          apply (relates_ofExcept fun failure hname => h _ (.name hname)).bind
          rintro text _ ⟨rfl, hname⟩
          apply (hinner type rfl).bind
          intro schema schema' _
          refine relates_pure ⟨rfl, ?_⟩
          rw [Member.name?, hname]
          rfl
  | index location parameter key type =>
      cases type with
      | none => exact relates_fail (h _ .untypedIndex)
      | some type => exact relates_fail (h _ .index)
  | other location kind name => exact relates_fail (h _ .other)
  | foreign location word => exact relates_fail (h _ .foreign)

/-- The names that were seen are those of the members before. -/
theorem relates_members (before : List Member) {rest : List Member} {seen : List String}
    (hseen : ∀ name ∈ seen, ∃ earlier ∈ before, earlier.name? = some name)
    (h : ∀ failure, Member.RefusedAmong (before ++ rest) failure →
      k.allowed (.fault (.failure failure)))
    (hparts : ∀ inner ∈ rest.filterMap Member.type?,
      k.Relates anyhow (resolve inner) (resolve' inner)) :
    k.Relates anyhow (Resolve.members resolve seen rest) (Resolve.members resolve' seen rest) := by
  induction rest generalizing before seen with
  | nil => exact relates_pure trivial
  | cons first rest ih =>
      rw [Resolve.members, Resolve.members]
      have hfirst : ∀ failure, first.Refused failure → k.allowed (.fault (.failure failure)) :=
        fun failure hrefused => h failure (.member (by simp) hrefused)
      apply (relates_member hfirst fun inner hinner =>
        hparts inner (List.mem_filterMap.mpr ⟨first, List.mem_cons_self, hinner⟩)).bind
      rintro ⟨name, schema⟩ ⟨name', schema'⟩ ⟨rfl, hname⟩
      by_cases hmem : name ∈ seen
      · simp only [if_pos hmem]
        obtain ⟨earlier, hearlier, hsame⟩ := hseen name hmem
        have htwice : [earlier, first].Sublist (before ++ first :: rest) :=
          (List.singleton_sublist.mpr hearlier).append
            (List.singleton_sublist.mpr List.mem_cons_self)
        exact relates_fail (h _ (.duplicate htwice hsame hname))
      · simp only [if_neg hmem]
        have hseen' : ∀ other ∈ name :: seen, ∃ earlier ∈ before ++ [first],
            earlier.name? = some other := by
          intro other hother
          obtain rfl | hother := List.mem_cons.mp hother
          · exact ⟨first, by simp, hname⟩
          · obtain ⟨earlier, hearlier, hsame⟩ := hseen other hother
            exact ⟨earlier, List.mem_append_left _ hearlier, hsame⟩
        have hparts' : ∀ inner ∈ rest.filterMap Member.type?,
            k.Relates anyhow (resolve inner) (resolve' inner) := by
          intro inner hinner
          obtain ⟨member, hmember, htype⟩ := List.mem_filterMap.mp hinner
          exact hparts inner
            (List.mem_filterMap.mpr ⟨member, List.mem_cons_of_mem first hmember, htype⟩)
        apply (ih (before ++ [first]) hseen' (by simpa using h) hparts').bind
        intro others others' _
        exact relates_pure trivial

/-- The bodies of the declarations that references go on into. -/
theorem relates_declaration {declaration : Declaration} (followed : declaration.isFollowed aliases)
    (h : k.Allows env aliases (.declaration declaration))
    (hparts : ∀ inner ∈ declaration.parts, k.Relates anyhow (resolve inner) (resolve' inner)) :
    k.Relates anyhow (Resolve.declaration env resolve declaration)
      (Resolve.declaration env resolve' declaration) := by
  cases declaration with
  | enum location name members =>
      apply (relates_mapM fun member hmember =>
        relates_enumMember fun failure hrefused => h _ (.enum hmember hrefused)).bind
      intro schemas schemas' _
      exact relates_pure trivial
  | interface location name members bases =>
      apply (relates_record _).bind
      intro _ _ _
      apply (relates_members [] (by simp)
        (fun failure hrefused => h _ (.interface hrefused)) hparts).bind
      intro schemas schemas' _
      exact relates_pure trivial
  | typeAlias location name type => exact hparts type (List.mem_singleton_self type)
  | enumMember _ | other _ _ _ | foreign _ _ _ => simp [Declaration.isFollowed] at followed

variable {policy policy' : Policy}

theorem relates_reference {location : Option Location} {name : String}
    {arguments : List TypeExpr} (haliases : policy'.aliases = policy.aliases)
    (h : k.Allows env policy.aliases (.type (.reference location name arguments)))
    (hnamed : ∀ first others, env.declarations name = first :: others →
      first.isFollowed policy.aliases → k.Relates anyhow
        (Resolve.named policy.mode first.qualifiedName (body first))
        (Resolve.named policy'.mode first.qualifiedName (body' first))) :
    k.Relates anyhow
      (Resolve.reference env policy body (.reference location name arguments) name arguments)
      (Resolve.reference env policy' body' (.reference location name arguments) name
        arguments) := by
  unfold Resolve.reference
  rw [haliases]
  apply (relates_record _).bind
  intro _ _ _
  cases found : env.declarations name with
  | nil => exact relates_fail (h _ (.unresolved found))
  | cons first others =>
      apply (relates_record _).bind
      intro _ _ _
      have hfollowed := hnamed first others found
      cases first with
      | enumMember member =>
          exact relates_enumMember fun failure hrefused => h _ (.enumMember found hrefused)
      | enum _ _ _ | interface _ _ _ _ => exact hfollowed rfl
      | typeAlias _ _ _ =>
          by_cases henabled : policy.aliases
          · simp only [if_pos henabled]
            exact hfollowed henabled
          · simp only [if_neg henabled]
            exact relates_fail (h _ (.unfollowed found (Bool.eq_false_iff.mpr henabled) (by simp)))
      | other _ _ _ | foreign _ _ _ =>
          exact relates_fail (h _ (.unfollowed found rfl (by simp)))

/-- **One step compares** when the steps inside it do, whatever the node itself is refused for may
end both runs, and references compare. -/
theorem relates_step {type : TypeExpr} (haliases : policy'.aliases = policy.aliases)
    (h : k.Allows env policy.aliases (.type type))
    (hparts : ∀ inner ∈ type.parts, k.Relates anyhow (resolve inner) (resolve' inner))
    (hnamed : ∀ location name arguments first others, type = .reference location name arguments →
      env.declarations name = first :: others → first.isFollowed policy.aliases →
        k.Relates anyhow (Resolve.named policy.mode first.qualifiedName (body first))
          (Resolve.named policy'.mode first.qualifiedName (body' first))) :
    k.Relates anyhow (Resolve.step env policy resolve body type)
      (Resolve.step env policy' resolve' body' type) := by
  cases type with
  | keyword location word => exact relates_keyword h
  | literal location expression => exact relates_literal h
  | array location element =>
      apply (hparts element (List.mem_singleton_self element)).bind
      intro schema schema' _
      exact relates_pure trivial
  | union location parts | intersection location parts | tuple location parts =>
      apply (relates_mapM hparts).bind
      intro schemas schemas' _
      exact relates_pure trivial
  | parenthesized location inner => exact hparts inner (List.mem_singleton_self inner)
  | object location members =>
      apply (relates_members [] (by simp)
        (fun failure hrefused => h _ (.object hrefused)) hparts).bind
      intro schemas schemas' _
      exact relates_pure trivial
  | reference location name arguments =>
      exact relates_reference haliases h fun first others => hnamed _ _ _ first others rfl
  | unsupported location kind => exact relates_fail (h _ .unsupported)
  | foreign location word => exact relates_fail (h _ .foreign)

end Rules

end Comparison

end TypeSchema
