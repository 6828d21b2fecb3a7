import TypeSchema.Text.Quoted

/-!
# Events

What happens during a resolution and is worth a record: names with several declarations, recursion,
new entries of the dependency table, and whatever is left out of a schema.
-/

namespace TypeSchema

inductive Level where
  | debug
  | warning
  deriving DecidableEq

def Level.name : Level → String
  | debug => "DEBUG"
  | warning => "WARNING"

inductive Event where
  | severalDeclarations (count : Nat) (name : String)
  | brokenInitializer (text : String)
  | ignoredArguments (name : String)
  | recursiveReference (name : String) (path : List String)
  | definitionAdded (name : String)
  | inheritanceOmitted (name : String) (bases : List String)
  | signatureStarted (name : String)
  | functionSkipped (name : String)
  deriving DecidableEq

namespace Event

def level : Event → Level
  | inheritanceOmitted _ _ => .warning
  | _ => .debug

/-- The name of the component that records an event. -/
def source : Event → String
  | severalDeclarations _ _ | brokenInitializer _ =>
    "signature_to_schema.pipeline.analyzer.environment"
  | ignoredArguments _ | recursiveReference _ _ | definitionAdded _ | inheritanceOmitted _ _ =>
    "signature_to_schema.pipeline.analyzer.reference_resolver"
  | signatureStarted _ => "signature_to_schema.pipeline.analyzer.resolver"
  | functionSkipped _ => "signature_to_schema.signature_to_schema"

def message : Event → String
  | severalDeclarations count name =>
    s!"{count} declarations found for {name}, using the first"
  | brokenInitializer text =>
    s!"Enum initializer {Text.quoted text} is not a numeric constant"
  | ignoredArguments name => s!"Ignoring type arguments of reference to {name}"
  | recursiveReference name path =>
    let via := String.intercalate " -> " path
    s!"Recursive reference to {name} (via {via})"
  | definitionAdded name => s!"Adding {name} to the dependency table"
  | inheritanceOmitted name bases =>
    let omitted := String.intercalate ", " bases
    s!"Members inherited by interface {name} from {omitted} are not included in its schema"
  | signatureStarted name => s!"Resolving signature of {name}"
  | functionSkipped name => s!"Skipping ignored function {name}"

def render (event : Event) : String :=
  event.level.name ++ " " ++ event.source ++ ": " ++ event.message

end Event

end TypeSchema
