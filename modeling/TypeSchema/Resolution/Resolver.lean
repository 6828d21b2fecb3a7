import TypeSchema.Resolution.Step

/-!
# Resolving types and signatures

A type expression is resolved from an empty state, so its model depends on the environment and the
policy alone. A signature is resolved type by type, each into a model of its own; the first fault
ends it. The budget says how many type expressions may be being resolved one inside the other.
-/

namespace TypeSchema

abbrev Recorded := EStateM Fault (List Event)

/-- The model of a type expression, or why it has none, with the events of the resolution. -/
def resolveWithin (budget : Nat) (env : Environment) (policy : Policy) (type : TypeExpr) :
    Except Interruption Model × List Event :=
  match Resolve.typeWithin env policy budget type {} with
  | .ok root context => (.ok ⟨root, context.deps⟩, context.events)
  | .error interruption context => (.error interruption, context.events)

/-- Exceeding the depth is a failure of the whole type expression. -/
def Interruption.toFault (type : TypeExpr) : Interruption → Fault
  | .fault reason => reason
  | .depthExceeded => .failure ⟨.nestedTooDeeply, some (.type type)⟩

def resolveType (budget : Nat) (env : Environment) (policy : Policy) (type : TypeExpr) :
    Recorded Model :=
  fun earlier =>
    let (result, events) := resolveWithin budget env policy type
    match result with
    | .ok model => .ok model (earlier ++ events)
    | .error interruption => .error (interruption.toFault type) (earlier ++ events)

def resolveParameter (budget : Nat) (env : Environment) (policy : Policy) (function : String)
    (parameter : Parameter) : Recorded ParameterSchema := do
  match parameter.type with
  | none =>
    throw (.failure ⟨.parameterWithoutType parameter.name function, some (.parameter parameter)⟩)
  | some type =>
    let model ← resolveType budget env policy type
    return ⟨parameter.name, parameter.optional, model⟩

def recordEvent (event : Event) : Recorded Unit :=
  modify (· ++ [event])

def resolveSignature (budget : Nat) (env : Environment) (policy : Policy) (signature : Signature) :
    Recorded SignatureSchema := do
  recordEvent (.signatureStarted signature.name)
  match signature.returnType with
  | none => throw (.failure ⟨.signatureWithoutType signature.name, some (.signature signature)⟩)
  | some returnType =>
    let parameters ←
      signature.parameters.mapM (resolveParameter budget env policy signature.name)
    let returns ← resolveType budget env policy returnType
    return ⟨signature.name, parameters, returns⟩

/-- Resolves the body of a declaration by itself, from an empty state. -/
def resolveDeclaration (budget : Nat) (env : Environment) (policy : Policy)
    (declaration : Declaration) : Recorded Schema :=
  fun earlier =>
    let resolve := Resolve.typeWithin env policy budget
    match Resolve.declaration env resolve declaration {} with
    | .ok schema context => .ok schema (earlier ++ context.events)
    | .error (.fault fault) context => .error fault (earlier ++ context.events)
    | .error .depthExceeded context =>
      .error (.failure ⟨.nestedTooDeeply, some (.declaration declaration)⟩)
        (earlier ++ context.events)

end TypeSchema
