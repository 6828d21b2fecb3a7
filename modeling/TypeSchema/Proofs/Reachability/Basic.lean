import Mathlib.Logic.Relation
import TypeSchema.Proofs.Denotation.Modes

/-!
# What a type expression reaches

A type expression leads to its parts, a reference to the first declaration of its name if references
go on into it, and a declaration to the type expressions of its body. Type arguments, the types that
an interface extends and the signatures of an index lead nowhere. Declarations can be held, as the
open ones are during a resolution: references do not lead to them then. A node that can be reached
when one declaration less is held can be reached as before, or from that declaration.
-/

namespace TypeSchema

/-- The type of a property. -/
def Member.type? : Member → Option TypeExpr
  | .property _ _ type _ => type
  | .index _ _ _ _ | .other _ _ _ | .foreign _ _ => none

/-- The type expressions that are resolved for a type expression, in order. -/
def TypeExpr.parts : TypeExpr → List TypeExpr
  | .array _ inner | .parenthesized _ inner => [inner]
  | .union _ types | .intersection _ types | .tuple _ types => types
  | .object _ members => members.filterMap Member.type?
  | .keyword _ _ | .literal _ _ | .reference _ _ _ | .unsupported _ _ | .foreign _ _ => []

/-- The type expressions that are resolved for the body of a declaration, in order. -/
def Declaration.parts : Declaration → List TypeExpr
  | .interface _ _ members _ => members.filterMap Member.type?
  | .typeAlias _ _ type => [type]
  | .enum _ _ _ | .enumMember _ | .other _ _ _ | .foreign _ _ _ => []

namespace Environment

/-- One step through the source. References do not lead to the declarations with the held names. -/
inductive Below (env : Environment) (aliases : Bool) (held : List String) : Node → Node → Prop
  | part {type inner : TypeExpr} (mem : inner ∈ type.parts) :
      Below env aliases held (.type type) (.type inner)
  | definition {location : Option Location} {name : String} {arguments : List TypeExpr}
      {first : Declaration} {others : List Declaration}
      (found : env.declarations name = first :: others) (followed : first.isFollowed aliases)
      (fresh : first.qualifiedName ∉ held) :
      Below env aliases held (.type (.reference location name arguments)) (.declaration first)
  | body {declaration : Declaration} {inner : TypeExpr} (mem : inner ∈ declaration.parts) :
      Below env aliases held (.declaration declaration) (.type inner)

/-- Any number of steps through the source. -/
abbrev Reaches (env : Environment) (aliases : Bool) (held : List String) : Node → Node → Prop :=
  Relation.ReflTransGen (env.Below aliases held)

/-- The declaration is the first one of its name. -/
def IsFirst (env : Environment) (declaration : Declaration) : Prop :=
  ∃ others, env.declarations declaration.qualifiedName = declaration :: others

/-- The declaration of the given name can be reached. -/
def LeadsTo (env : Environment) (aliases : Bool) (held : List String) (node : Node)
    (name : String) : Prop :=
  ∃ declaration : Declaration, declaration.qualifiedName = name ∧
    env.Reaches aliases held node (.declaration declaration)

variable {env : Environment} {aliases : Bool} {held held' : List String} {name : String}
  {first declaration declaration' : Declaration} {others : List Declaration} {node node' : Node}

theorem WellNamed.isFirst (named : env.WellNamed)
    (found : env.declarations name = first :: others) : env.IsFirst first := by
  have hname : first.qualifiedName = name := named name first (by simp [found])
  exact ⟨others, by rw [hname, found]⟩

theorem IsFirst.eq (h : env.IsFirst declaration) (h' : env.IsFirst declaration')
    (hname : declaration.qualifiedName = declaration'.qualifiedName) :
    declaration = declaration' := by
  obtain ⟨others, found⟩ := h
  obtain ⟨others', found'⟩ := h'
  rw [hname, found'] at found
  exact (List.cons.inj found).1.symm

theorem Below.of_subset (hsubset : held ⊆ held') (h : env.Below aliases held' node node') :
    env.Below aliases held node node' := by
  cases h with
  | part mem => exact .part mem
  | definition found followed fresh =>
      exact .definition found followed fun hheld => fresh (hsubset hheld)
  | body mem => exact .body mem

theorem Reaches.of_subset (hsubset : held ⊆ held') (h : env.Reaches aliases held' node node') :
    env.Reaches aliases held node node' :=
  Relation.ReflTransGen.mono (fun _ _ => Below.of_subset hsubset) _ _ h

theorem LeadsTo.of_reaches (hreaches : env.Reaches aliases held node node')
    (h : env.LeadsTo aliases held node' name) : env.LeadsTo aliases held node name := by
  obtain ⟨declaration, hname, hdeclaration⟩ := h
  exact ⟨declaration, hname, hreaches.trans hdeclaration⟩

/-- Only first declarations are reached. -/
theorem Reaches.isFirst (named : env.WellNamed) {type : TypeExpr}
    (h : env.Reaches aliases held (.type type) (.declaration declaration)) :
    env.IsFirst declaration := by
  obtain hsame | ⟨middle, -, hstep⟩ := h.cases_tail
  · cases hsame
  · cases hstep with
    | definition found _ _ => exact named.isFirst found

/-- What a declaration is reached through does not matter: from its last occurrence on, a path does
not lead to it again. -/
theorem reaches_or_reaches_of_isFirst (named : env.WellNamed) (hfirst : env.IsFirst first)
    (h : env.Reaches aliases held node node') :
    env.Reaches aliases (first.qualifiedName :: held) node node' ∨
      env.Reaches aliases (first.qualifiedName :: held) (.declaration first) node' := by
  induction h with
  | refl => exact .inl .refl
  | tail _ step ih =>
      cases step with
      | part mem => exact ih.imp (.tail · (.part mem)) (.tail · (.part mem))
      | body mem => exact ih.imp (.tail · (.body mem)) (.tail · (.body mem))
      | @definition _ _ _ second _ found followed fresh =>
          by_cases hname : second.qualifiedName = first.qualifiedName
          · obtain rfl := (named.isFirst found).eq hfirst hname
            exact .inr .refl
          · have hfresh : second.qualifiedName ∉ first.qualifiedName :: held := by
              simp [hname, fresh]
            exact ih.imp (.tail · (.definition found followed hfresh))
              (.tail · (.definition found followed hfresh))

end Environment

end TypeSchema
