import Mathlib.Data.Finset.Card
import TypeSchema.Proofs.Resolution.Settling
import TypeSchema.Proofs.Resolution.Table

/-!
# Resolution ends

Following a reference leads into the body of a declaration, which may be larger than everything
around it, so no type expression gets smaller on the way. What gets smaller is the number of
declarations that are not open: a declaration is never entered while it is open, and only
registered names can be open. Between two declarations that are entered, type expressions get less
deep. So `(k + 1) * d` type expressions at most are resolved one inside the other, where `k` is the
number of registered names and `d` the depth of the deepest type expression, and a resolution that
is allowed to go that deep ends with a model or a fault.
-/

namespace TypeSchema

/-- The open declarations are distinct, and each name means a declaration that references go on
into: an enum, an interface or a type alias. -/
def Environment.InOrder (env : Environment) (aliases : Bool) (names : List String) : Prop :=
  names.Nodup ∧ ∀ name ∈ names, (env.declarations name).head?.any (Declaration.isFollowed aliases)

instance (env : Environment) (aliases : Bool) (names : List String) :
    Decidable (env.InOrder aliases names) :=
  inferInstanceAs (Decidable (_ ∧ _))

namespace Resolve

/-- Lets a computation begin where the open declarations are in order. Anywhere else it ends as if
it had gone too deep. -/
def watch {α : Type} (env : Environment) (aliases : Bool) (run : Resolve α) : Resolve α := fun c =>
  if env.InOrder aliases c.resolving then run c else .error .depthExceeded c

/-- The resolution of a type expression under observation. Declarations are opened for the
resolution of their bodies only, so it is enough to look where a body or a type expression
begins. -/
def watchedWithin (env : Environment) (policy : Policy) : (budget : Nat) → TypeExpr → Resolve Schema
  | 0, _ => throw .depthExceeded
  | budget + 1, type =>
    let resolve := watchedWithin env policy budget
    let body := fun first => watch env policy.aliases (declaration env resolve first)
    watch env policy.aliases (step env policy resolve body type)

end Resolve

/-- At most the given names are declared, each under itself, and no body is deeper than given. -/
structure Environment.Bounded (env : Environment) (registered : Finset String) (depth : Nat) :
    Prop where
  qualifiedName_eq : ∀ {name declaration}, declaration ∈ env.declarations name →
    declaration.qualifiedName = name
  mem_registered : ∀ {name declaration}, declaration ∈ env.declarations name → name ∈ registered
  depth_le : ∀ {name declaration}, declaration ∈ env.declarations name → declaration.depth ≤ depth

section Bounds

variable {env : Environment} {policy : Policy} {aliases : Bool} {registered : Finset String}
  {depth : Nat} {names : List String} {name : String} {first : Declaration}
  {others : List Declaration}

/-- Distinct registered names are no more than there are. -/
theorem Environment.InOrder.length_le (bounds : env.Bounded registered depth)
    (h : env.InOrder aliases names) : names.length ≤ registered.card := by
  obtain ⟨hnodup, hopen⟩ := h
  have hsubset : names.toFinset ⊆ registered := by
    intro name hname
    have hany := hopen name (List.mem_toFinset.mp hname)
    cases hfound : env.declarations name with
    | nil => simp [hfound] at hany
    | cons first others => exact bounds.mem_registered (hfound ▸ List.mem_cons_self)
  calc names.length = names.toFinset.card := (List.toFinset_card_of_nodup hnodup).symm
    _ ≤ registered.card := Finset.card_le_card hsubset

theorem Environment.InOrder.cons (h : env.InOrder aliases names)
    (found : env.declarations name = first :: others) (followed : first.isFollowed aliases)
    (fresh : name ∉ names) : env.InOrder aliases (name :: names) := by
  refine ⟨List.nodup_cons.mpr ⟨fresh, h.1⟩, ?_⟩
  intro other hother
  obtain rfl | hother := List.mem_cons.mp hother
  · rw [found]
    exact followed
  · exact h.2 other hother

namespace Resolve

theorem Settles.watch {α : Type} {m m' : Resolve α} (horder : env.InOrder aliases names)
    (h : Settles names m m') : Settles names m (watch env aliases m') := by
  intro c hc
  have hwatch : Resolve.watch env aliases m' c = m' c := if_pos (hc ▸ horder)
  rw [hwatch]
  exact h c hc

/-- **A budget that suffices.** It covers the type expression itself and, for every name that is not
open yet, the deepest body. -/
theorem typeWithin_settles (bounds : env.Bounded registered depth)
    (horder : env.InOrder policy.aliases names) {type : TypeExpr} {budget budget' : Nat}
    (h : type.depth + (registered.card - names.length) * depth ≤ budget)
    (h' : type.depth + (registered.card - names.length) * depth ≤ budget') :
    Settles names (typeWithin env policy budget type) (watchedWithin env policy budget' type) := by
  have hpositive := type.depth_pos
  induction budget generalizing names type budget' with
  | zero => omega
  | succ budget ih =>
      cases budget' with
      | zero => omega
      | succ budget' =>
          rw [typeWithin, watchedWithin]
          apply Settles.watch horder
          apply settles_step
          · intro inner hinner
            apply ih horder _ _ inner.depth_pos
            · omega
            · omega
          · intro name first others found followed fresh
            have hmem : first ∈ env.declarations name := found ▸ List.mem_cons_self
            have hname : first.qualifiedName = name := bounds.qualifiedName_eq hmem
            rw [hname] at fresh ⊢
            have horder' : env.InOrder policy.aliases (name :: names) :=
              horder.cons found followed fresh
            have hlength : names.length + 1 ≤ registered.card := horder'.length_le bounds
            -- one more open declaration leaves room for its body
            have hroom : (registered.card - names.length) * depth =
                (registered.card - (name :: names).length) * depth + depth := by
              rw [List.length_cons, ← Nat.succ_mul]
              congr 1
              omega
            apply Settles.watch horder'
            apply settles_declaration
            intro inner hinner
            have hdepth : inner.depth ≤ depth := Nat.le_trans hinner (bounds.depth_le hmem)
            apply ih horder' _ _ inner.depth_pos
            · omega
            · omega

end Resolve

end Bounds

theorem Environment.bounded_ofTable (declarations : List Declaration) (depth : Nat)
    (h : Declaration.depthOfAll declarations ≤ depth) :
    (ofTable (.ofList declarations)).Bounded
      ((DeclarationTable.ofList declarations).entries.map Prod.fst).toFinset depth where
  qualifiedName_eq := DeclarationTable.qualifiedName_of_mem_declarations
  mem_registered := by
    intro name declaration hmem
    have hentry := DeclarationTable.mem_declarations.mp hmem
    exact List.mem_toFinset.mpr (List.mem_map_of_mem hentry)
  depth_le := by
    intro name declaration hmem
    have hentry := DeclarationTable.mem_declarations.mp hmem
    rw [DeclarationTable.ofList_entries] at hentry
    obtain ⟨source, hsource, hentry⟩ := List.mem_flatMap.mp hentry
    have hdepth : declaration.depth ≤ source.depth :=
      DeclarationTable.depth_le_of_mem_entriesOf hentry
    exact Nat.le_trans hdepth (Nat.le_trans (Declaration.depth_le_depthOfAll hsource) h)

/-- **Resolution ends.** Whatever declarations there are, and whether or not they refer to each
other in circles, a resolution that may resolve `(k + 1) * d` type expressions one inside the other
ends with a model or a fault, and going deeper would change nothing. All the time the open
declarations are distinct, and each of them is a registered enum, interface or type alias. -/
theorem resolution_ends (declarations : List Declaration) (policy : Policy) (type : TypeExpr) :
    let env : Environment := .ofTable (.ofList declarations)
    let registered := ((DeclarationTable.ofList declarations).entries.map Prod.fst).toFinset
    let depth := max type.depth (Declaration.depthOfAll declarations)
    ∃ ending : Except Interruption Model × List Event,
      ((∃ model, ending.1 = .ok model) ∨ ∃ fault, ending.1 = .error (.fault fault)) ∧
        ∀ budget, (registered.card + 1) * depth ≤ budget →
          resolveWithin budget env policy type = ending ∧
            Resolve.watchedWithin env policy budget type {} =
              Resolve.typeWithin env policy budget type {} := by
  intro env registered depth
  have hbounds : env.Bounded registered depth :=
    Environment.bounded_ofTable declarations depth (Nat.le_max_right _ _)
  have horder : env.InOrder policy.aliases [] := ⟨List.nodup_nil, by simp⟩
  have hcovers : ∀ budget, (registered.card + 1) * depth ≤ budget →
      type.depth + (registered.card - ([] : List String).length) * depth ≤ budget := by
    intro budget hbudget
    have htype : type.depth ≤ depth := Nat.le_max_left _ _
    rw [Nat.succ_mul] at hbudget
    rw [List.length_nil, Nat.sub_zero]
    omega
  have hsettles : ∀ budget budget', (registered.card + 1) * depth ≤ budget →
      (registered.card + 1) * depth ≤ budget' →
        Resolve.Settles [] (Resolve.typeWithin env policy budget type)
          (Resolve.watchedWithin env policy budget' type) :=
    fun budget budget' h h' =>
      Resolve.typeWithin_settles hbounds horder (hcovers budget h) (hcovers budget' h')
  set limit := (registered.card + 1) * depth
  obtain ⟨hlimit, hdeep, -⟩ := hsettles limit limit Nat.le.refl Nat.le.refl {} rfl
  refine ⟨resolveWithin limit env policy type, ?_, ?_⟩
  · rw [resolveWithin]
    cases hrun : Resolve.typeWithin env policy limit type {} with
    | ok root c => exact .inl ⟨_, rfl⟩
    | error interruption c =>
        cases interruption with
        | fault reason => exact .inr ⟨reason, rfl⟩
        | depthExceeded => exact absurd hrun (hdeep c)
  · intro budget hbudget
    obtain ⟨hbudgetLimit, -, -⟩ := hsettles budget limit hbudget Nat.le.refl {} rfl
    obtain ⟨hwatched, -, -⟩ := hsettles budget budget hbudget hbudget {} rfl
    refine ⟨?_, hwatched⟩
    rw [resolveWithin, resolveWithin, ← hbudgetLimit, hlimit]

end TypeSchema
