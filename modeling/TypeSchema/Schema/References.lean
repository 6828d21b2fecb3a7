import TypeSchema.Schema.Basic

/-!
# References in schemas

The names that the references of a schema carry, at any depth, and the models all of whose
references can be looked up.
-/

namespace TypeSchema

mutual

/-- The names of the references anywhere in a schema, in order. -/
def Schema.references : Schema → List String
  | .reference name => [name]
  | .array inner | .tupleElement _ inner | .member _ _ inner | .enumMember _ inner =>
    inner.references
  | .union children | .intersection children | .tuple children | .object children
  | .enum _ children => Schema.referencesOfAll children
  | .any | .bigInt | .number | .string | .boolean | .null | .undefined | .booleanLiteral _
  | .stringLiteral _ | .numberLiteral _ | .bigIntLiteral _ | .foreign _ => []

def Schema.referencesOfAll : List Schema → List String
  | [] => []
  | first :: rest => first.references ++ Schema.referencesOfAll rest

end

theorem Schema.referencesOfAll_eq_flatMap (schemas : List Schema) :
    Schema.referencesOfAll schemas = schemas.flatMap Schema.references := by
  induction schemas with
  | nil => rfl
  | cons first rest ih => rw [Schema.referencesOfAll, List.flatMap_cons, ih]

theorem Schema.referencesOfAll_mapIdx {f : Nat → Schema → Schema}
    (h : ∀ index schema, (f index schema).references = schema.references) (schemas : List Schema) :
    Schema.referencesOfAll (schemas.mapIdx f) = Schema.referencesOfAll schemas := by
  induction schemas generalizing f with
  | nil => rfl
  | cons first rest ih =>
      rw [List.mapIdx_cons, Schema.referencesOfAll, Schema.referencesOfAll, h,
        ih fun index => h (index + 1)]

namespace Model

def defined (model : Model) : List String := model.deps.map Prod.fst

/-- Every reference in the root or in a definition names a definition. -/
def Closed (model : Model) : Prop :=
  (∀ name ∈ model.root.references, name ∈ model.defined) ∧
    ∀ entry ∈ model.deps, ∀ name ∈ entry.2.references, name ∈ model.defined

end Model

end TypeSchema
