import TypeSchema.Text.Quoted

/-!
# Usage errors

Why the words after the name of the command are refused. Most refusals are preceded by a reminder
of the usage; those about a missing or a superfluous value of an option are not.
-/

namespace TypeSchema.Command

def commandName : String := "signature_to_schema"

inductive UsageError where
  | unknownOption (name : String) (suggestions : List String)
  | valueMissing (name : String)
  | valueNotTaken (name : String)
  | pathMissing
  | pathNotFound (parameter path : String)
  | pathUnreadable (parameter path : String)
  | unknownMode (parameter mode : String) (known : List String)
  | notInteger (parameter text : String)
  | extraArguments (arguments : List String)
  deriving DecidableEq

namespace UsageError

def invalidValue (parameter reason : String) : String :=
  s!"Invalid value for {parameter}: {reason}"

/-- The names of known options that an unknown one resembles. -/
def suggestion : List String → String
  | [] => ""
  | [name] => s!" Did you mean {name}?"
  | names => " (Possible options: " ++ String.intercalate ", " names ++ ")"

def message : UsageError → String
  | unknownOption name suggestions => s!"No such option: {name}" ++ suggestion suggestions
  | valueMissing name => s!"Option {Text.quotedHeld name} requires an argument."
  | valueNotTaken name => s!"Option {Text.quotedHeld name} does not take a value."
  | pathMissing => "Missing argument 'PATH'."
  | pathNotFound parameter path =>
    invalidValue parameter s!"Path {Text.quotedHeld path} does not exist."
  | pathUnreadable parameter path =>
    invalidValue parameter s!"Path {Text.quotedHeld path} is not readable."
  | unknownMode parameter mode known =>
    let modes := String.intercalate ", " (known.map Text.quotedHeld)
    invalidValue parameter s!"{Text.quotedHeld mode} is not one of {modes}."
  | notInteger parameter text =>
    invalidValue parameter s!"{Text.quotedHeld text} is not a valid integer."
  | extraArguments arguments =>
    let noun := if arguments.length = 1 then "argument" else "arguments"
    let words := String.intercalate " " arguments
    s!"Got unexpected extra {noun} ({words})"

def remindsOfUsage : UsageError → Bool
  | valueMissing _ | valueNotTaken _ => false
  | _ => true

def usage : String := s!"Usage: {commandName} [OPTIONS] PATH [OUTPUT]\n"

def render (error : UsageError) : String :=
  let reminder :=
    if error.remindsOfUsage then usage ++ s!"Try '{commandName} --help' for help.\n\n" else ""
  reminder ++ s!"Error: {error.message}\n"

end UsageError

end TypeSchema.Command
