import TypeSchema.Command.Line
import TypeSchema.Command.Outcome
import TypeSchema.Format.Reader
import TypeSchema.Json.Writer
import TypeSchema.Limits
import TypeSchema.Resolution.Resolver

/-!
# Running the command

A run reads a document, and settings if it is given some, and resolves the functions of the document
one by one. The functions that are asked for by name are chosen first, then those that the settings
ignore are left out. A function that fails is reported and does not keep the others from their place
in the result; of two functions with one name the later takes the place of the earlier.
-/

namespace TypeSchema.Command

/-- A step of a run: it may be broken off, and leaves notices. -/
abbrev Run := EStateM Abort (List Notice)

namespace Run

def ofExcept {ε α : Type} (abort : ε → Abort) : Except ε α → Run α
  | .ok a => pure a
  | .error error => throw (abort error)

def notify (notice : Notice) : Run Unit :=
  modify (· ++ [notice])

def record (events : List Event) : Run Unit :=
  modify (· ++ events.map .event)

/-! ### Input -/

def contents (workspace : Workspace) (place : Place) : Run String :=
  if !workspace.mayRead place then throw (.path .denied place.render)
  else
    match workspace.contents? place with
    | some bytes => ofExcept .undecodable (Text.decode bytes)
    | none =>
      let problem := if workspace.isDirectory place then .isDirectory else .notFound
      throw (.path problem place.render)

/-- The settings of a run: those of the file, if there is one, with the options set over them. -/
def settings (limits : Limits) (workspace : Workspace) (parameters : Parameters) :
    Run Settings := do
  let settings ← match parameters.config with
    | none => pure {}
    | some place =>
      let text ← contents workspace place
      let json ← ofExcept .unreadableSettings (Json.readFile limits.reading text)
      ofExcept .invalidSettings (Settings.ofJson limits.showing json)
  return { settings with
    mode := parameters.mode.getD settings.mode
    aliases := if parameters.aliases then .bool true else settings.aliases }

/-! ### Functions -/

/-- Whether a function is to be resolved: it is asked for, or all are, and it is not ignored. -/
def isSelected (settings : Settings) (chosen : List String) (name : String) : Run Bool := do
  if chosen ≠ [] ∧ name ∉ chosen then return false
  let ignored ← ofExcept .invalidSettings (settings.ignores name)
  if ignored then notify (.event (.functionSkipped name))
  return !ignored

structure Progress where
  fields : List (String × Json) := []
  failures : Nat := 0

/-- Resolves a function into a field of the result, or reports why it has no schema. -/
def resolveInto (limits : Limits) (env : Environment) (settings : Settings) (progress : Progress)
    (signature : Signature) : Run Progress :=
  match resolveSignature limits.resolving env settings.policy signature [] with
  | .ok schema events => do
    record events
    let json ← ofExcept .notEncoded (schema.encode limits.listing limits.encoding)
    return { progress with fields := Json.insertField progress.fields signature.name json }
  | .error (.failure failure) events => do
    record events
    notify (.functionFailed signature.name failure)
    return { progress with failures := progress.failures + 1 }
  | .error (.notInteger problem) events => do
    record events
    throw (.notInteger problem)

def resolveAll (limits : Limits) (env : Environment) (settings : Settings) (chosen : List String)
    (signatures : List Signature) : Run Progress :=
  signatures.foldlM
    (fun progress signature => do
      if ← isSelected settings chosen signature.name then
        resolveInto limits env settings progress signature
      else return progress)
    {}

/-! ### Output -/

def comment (limits : Limits) (workspace : Workspace) (settings : Settings)
    (parameters : Parameters) : Run (List (String × Json)) := do
  if settings.comment.isTruthy then
    let text ← ofExcept id (line limits.showing workspace parameters.values)
    return [("$comment", .text (Text.held s!"Generated by {text}"))]
  else return []

/-- Lines that start with as many blanks as this do not fit into memory. -/
def blanksLimit : Nat := Nat.pow 2 32

def isTooWide (n : Int) : Bool := n < -(Nat.pow 2 63 : Nat) || (Nat.pow 2 63 : Nat) ≤ n

/-- Zero puts the result on one line, and a negative number breaks lines without indenting them. -/
def indentation (indent : Int) : Run (Option Nat) := do
  if indent = 0 then return none
  else if isTooWide indent then throw .indentTooWide
  else if blanksLimit ≤ indent.toNat then throw .outOfMemory
  else return some indent.toNat

def written (limits : Limits) (indent : Option Nat) (json : Json) : Run String :=
  match json.stop? limits.writing with
  | some excess => throw (.notWritten excess)
  | none => pure (json.write indent ++ "\n")

def target (workspace : Workspace) (output : String) : Run Target :=
  if output = "-" then pure .standardOutput
  else
    ofExcept (fun problem => .path problem output) ((workspace.target output).map .file)

def result (limits : Limits) (workspace : Workspace) (parameters : Parameters) : Run Ending := do
  let text ← contents workspace parameters.path
  let json ← ofExcept .unreadableDocument (Json.readFile limits.reading text)
  let settings ← settings limits workspace parameters
  let file := Text.held parameters.path.name
  let document ← ofExcept .invalidDocument (Format.readDocument limits file json)
  record (document.declarations.flatMap DeclarationTable.additionEvents)
  let env := Environment.ofTable (.ofList document.declarations)
  let comment ← comment limits workspace settings parameters
  let progress ← resolveAll limits env settings parameters.chosen document.functions
  let json := Json.object (comment ++ [("functions", .object progress.fields)])
  let text ← written limits (← indentation parameters.indent) json
  return .finished (← target workspace parameters.output) text progress.failures

end Run

def Parameters.run (limits : Limits) (parameters : Parameters) (workspace : Workspace) : Outcome :=
  let shown (notices : List Notice) := notices.filter (·.isShown parameters.verbose)
  match Run.result limits workspace parameters [] with
  | .ok ending notices => ⟨shown notices, ending⟩
  | .error abort notices => ⟨shown notices, .broken abort⟩

def execute (limits : Limits) (workspace : Workspace) (arguments : List String) : Outcome :=
  match Request.read workspace arguments with
  | .error (.usage error) => ⟨[], .refused error⟩
  | .error .nullCharacter => ⟨[], .broken .nullCharacter⟩
  | .ok .help => ⟨[], .help⟩
  | .ok (.run parameters) => parameters.run limits workspace

end TypeSchema.Command
