import TypeSchema.Command.Words
import TypeSchema.Command.Workspace
import TypeSchema.Number.Numeral
import TypeSchema.Settings

/-!
# Parameters of a run

The values of options are checked in the order in which the options are given, then the path, and
then superfluous arguments are refused; the first fault is reported. Paths that are read have to
exist, and no path can be looked up that holds a null character. An option that is given again
counts with its last value, except that the names of functions add up. A file that exists where the
output goes has to be readable as well.
-/

namespace TypeSchema.Command

structure Options where
  config : Option Place := none
  functions : List String := []
  mode : Option ReferenceMode := none
  aliases : Bool := false
  indent : Int := 2
  verbose : Bool := false
  deriving DecidableEq

structure Parameters extends Options where
  path : Place
  output : String := "-"
  deriving DecidableEq

/-- The functions that are asked for, by the names that documents give them. -/
def Parameters.chosen (parameters : Parameters) : List String :=
  parameters.functions.map Text.held

inductive Request where
  | help
  | run (parameters : Parameters)

inductive Refusal where
  | usage (error : UsageError)
  | nullCharacter
  deriving DecidableEq

def checkPath (path : String) : Except Refusal Unit :=
  if holdsNull path then .error .nullCharacter else .ok ()

def existing (workspace : Workspace) (parameter path : String) : Except Refusal Place := do
  checkPath path
  let place := workspace.resolve path
  if !workspace.contains place then throw (.usage (.pathNotFound parameter path))
  if !workspace.mayRead place then throw (.usage (.pathUnreadable parameter path))
  return place

/-- The path that the output goes to; the word `-` stands for none. -/
def checkOutput (workspace : Workspace) (path : String) : Except Refusal Unit := do
  checkPath path
  if path ≠ "-" ∧ (workspace.existing? path).any fun place => !workspace.mayRead place then
    throw (.usage (.pathUnreadable "'[OUTPUT]'" path))

def readMode (parameter text : String) : Except Refusal ReferenceMode :=
  match ReferenceMode.ofName? text with
  | some mode => .ok mode
  | none =>
    .error (.usage (.unknownMode parameter text (ReferenceMode.all.map ReferenceMode.name)))

/-- An integer, in which underscores may stand between digits. -/
def readInteger (parameter text : String) : Except Refusal Int :=
  match Numeral.separatedInteger text.toList with
  | .ok n => .ok n
  | .error _ => .error (.usage (.notInteger parameter text))

/-- Sets what an option stands for to the values that it was given. -/
def Options.set (options : Options) (workspace : Workspace) (switch : Switch)
    (values : List String) : Except Refusal Options :=
  let value := values.getLast?.getD ""
  match switch with
  | .config =>
    (existing workspace switch.hint value).map fun place => { options with config := some place }
  | .function => .ok { options with functions := values }
  | .mode => (readMode switch.hint value).map fun mode => { options with mode := some mode }
  | .aliases => .ok { options with aliases := true }
  | .indent => (readInteger switch.hint value).map fun n => { options with indent := n }
  | .verbose => .ok { options with verbose := true }
  | .help => .ok options

def Options.ofWords (workspace : Workspace) (words : Words) : Except Refusal Options :=
  words.switches.foldlM
    (fun options switch => options.set workspace switch (words.values switch)) {}

def Parameters.ofWords (workspace : Workspace) (words : Words) : Except Refusal Parameters := do
  let options ← Options.ofWords workspace words
  match words.arguments with
  | [] => throw (.usage .pathMissing)
  | path :: rest =>
    let place ← existing workspace "'PATH'" path
    let output := rest.head?.getD "-"
    checkOutput workspace output
    if rest.length ≤ 1 then return { toOptions := options, path := place, output := output }
    else throw (.usage (.extraArguments (rest.drop 1)))

/-- What the words of a command line ask for. A request for help comes before all values. -/
def Request.ofWords (workspace : Workspace) (words : Words) : Except Refusal Request :=
  if .help ∈ words.switches then .ok .help
  else (Parameters.ofWords workspace words).map .run

def Request.read (workspace : Workspace) (arguments : List String) : Except Refusal Request :=
  match Words.read arguments with
  | .ok words => Request.ofWords workspace words
  | .error error => .error (.usage error)

end TypeSchema.Command
