import TypeSchema.Source.Declaration

/-!
# Nesting of type expressions

The parts of a type expression are nested less deeply than the type expression itself. The body of a
declaration is as deep as the deepest type expression in it.
-/

namespace TypeSchema

theorem TypeExpr.depth_pos (type : TypeExpr) : 0 < type.depth := by
  cases type <;> simp [depth]

theorem TypeExpr.depthOfAll_le_iff {types : List TypeExpr} {bound : Nat} :
    depthOfAll types ≤ bound ↔ ∀ type ∈ types, type.depth ≤ bound := by
  induction types with
  | nil => simp [depthOfAll]
  | cons type rest ih => rw [depthOfAll, Nat.max_le, ih, List.forall_mem_cons]

theorem Member.depthOfAll_le_iff {members : List Member} {bound : Nat} :
    depthOfAll members ≤ bound ↔ ∀ member ∈ members, member.depth ≤ bound := by
  induction members with
  | nil => simp [depthOfAll]
  | cons member rest ih => rw [depthOfAll, Nat.max_le, ih, List.forall_mem_cons]

theorem TypeExpr.depth_le_depthOfAll {type : TypeExpr} {types : List TypeExpr} (h : type ∈ types) :
    type.depth ≤ depthOfAll types :=
  depthOfAll_le_iff.mp (Nat.le_refl _) type h

namespace Declaration

def depth : Declaration → Nat
  | interface _ _ members _ => Member.depthOfAll members
  | typeAlias _ _ type => type.depth
  | enum _ _ _ | enumMember _ | other _ _ _ | foreign _ _ _ => 0

def depthOfAll : List Declaration → Nat
  | [] => 0
  | declaration :: rest => max declaration.depth (depthOfAll rest)

theorem depth_le_depthOfAll {declaration : Declaration} {declarations : List Declaration}
    (h : declaration ∈ declarations) : declaration.depth ≤ depthOfAll declarations := by
  induction declarations with
  | nil => cases h
  | cons first rest ih =>
      rw [depthOfAll]
      obtain rfl | h := List.mem_cons.mp h
      · exact Nat.le_max_left _ _
      · exact Nat.le_trans (ih h) (Nat.le_max_right _ _)

end Declaration

end TypeSchema
