import TypeSchema.Command.Outcome
import TypeSchema.Command.Parameters

/-!
# Recording the command line

A run records the command line that it was started with: the name of the command, the arguments and
then the options in the order of their declaration. Values that count as false or are the default
are left out, and a text that is the path of something that exists is shortened to its last name.
Other values are shown, as far as they can be.
-/

namespace TypeSchema.Command

abbrev Values := List (String × Json)

def argumentDefaults : List (String × Json) := [("path", .null), ("output", .text "-")]

/-- Whether a value is a text or number equal to the default. -/
def isDefault (default : Json) (value : Json) : Bool :=
  match default, value with
  | .text s, .text t => s = t
  | .number (.integer n), .number m => m.hasValue n
  | _, _ => false

def recorded? (values : Values) (name : String) (default : Json) : Option Json :=
  (values.lookup name).filter fun value => value.isTruthy && !isDefault default value

/-- A value in the command line. A text with too long a name cannot be tried as a path. -/
def valueWord (showing : Nat) (workspace : Workspace) (value : Json) : Except Abort String :=
  match value with
  | .text s =>
    match workspace.find s with
    | .ok _ => .ok (lastName s)
    | .error .nameTooLong => .error (.path .nameTooLong (tidyPath s))
    | .error _ => .ok s
  | _ => (value.display showing).mapError .notRecorded

section Lines

variable (showing : Nat) (workspace : Workspace) (values : Values)

def argumentWords (argument : String × Json) : Except Abort (List String) :=
  match recorded? values argument.1 argument.2 with
  | none => .ok []
  | some value => (valueWord showing workspace value).map fun word => [word]

/-- An option with its value; it is repeated for the items of a list. -/
def switchWords (switch : Switch) : Except Abort (List String) :=
  match switch.parameter?.bind fun name => recorded? values name switch.default with
  | none => .ok []
  | some value =>
    if switch.takesValue then
      let items := match value with
        | .array items => items
        | value => [value]
      items.flatMapM fun item => do return [switch.long, ← valueWord showing workspace item]
    else .ok [switch.long]

def lineWords : Except Abort (List String) := do
  let arguments ← argumentDefaults.flatMapM (argumentWords showing workspace values)
  let options ← Switch.all.flatMapM (switchWords showing workspace values)
  return commandName :: (arguments ++ options)

def line : Except Abort String :=
  (lineWords showing workspace values).map (String.intercalate " ")

end Lines

def Parameters.values (parameters : Parameters) : Values :=
  [("config", parameters.config.elim .null fun place => .text place.render),
   ("functions", .array (parameters.functions.map .text)),
   ("mode", parameters.mode.elim .null fun mode => .text mode.name),
   ("resolve_type_aliases", .bool parameters.aliases),
   ("indent", .ofInt parameters.indent),
   ("verbose", .bool parameters.verbose),
   ("path", .text parameters.path.render),
   ("output", .text parameters.output)]

end TypeSchema.Command
