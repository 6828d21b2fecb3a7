import TypeSchema.Command.Usage
import TypeSchema.Command.Workspace
import TypeSchema.Format.Basic
import TypeSchema.Json.Reader
import TypeSchema.Resolution.Event
import TypeSchema.Resolution.Failure
import TypeSchema.Schema.Encoder
import TypeSchema.Settings

/-!
# Outcomes of the command

A run ends with the refusal of its command line, is broken off, or finishes with the text of its
result; in the last case alone something is written. Up to then it leaves notices, of which events
below a warning are shown on request only. What is printed and the exit code follow from these.
-/

namespace TypeSchema.Command

inductive Notice where
  | event (event : Event)
  | functionFailed (name : String) (failure : Failure)

namespace Notice

def isShown (verbose : Bool) : Notice → Bool
  | .event record => verbose || record.level = .warning
  | .functionFailed _ _ => true

def render : Notice → String
  | .event record => Text.released record.render ++ "\n"
  | .functionFailed name failure => Text.released s!"error: {name}: {failure.render}\n"

end Notice

/-- Why a run is broken off before it has a result. -/
inductive Abort where
  | undecodable (problem : Text.DecodeProblem)
  | unreadableDocument (error : Json.ReadError)
  | invalidDocument (error : Format.Error)
  | unreadableSettings (error : Json.ReadError)
  | invalidSettings (problem : Settings.Problem)
  | path (problem : PathProblem) (text : String)
  | nullCharacter
  | notInteger (problem : Json.IntegerProblem)
  | notEncoded (error : EncodeError)
  | notRecorded (excess : Json.Excess)
  | notWritten (excess : Json.Excess)
  | indentTooWide
  | outOfMemory

namespace Abort

def message : Abort → String
  | undecodable problem => problem.message
  | unreadableDocument error | unreadableSettings error => error.message
  | invalidDocument error => error.message
  | invalidSettings problem => problem.message
  | .path problem text => problem.message text
  | nullCharacter => "embedded null byte"
  | notInteger problem => problem.message
  | notEncoded error => error.message
  | notRecorded excess | notWritten excess => excess.message
  | indentTooWide => "cannot fit 'int' into an index-sized integer"
  | outOfMemory => ""

/-- A document that cannot be read or used is reported as such. Anything else that breaks off a run
is left to the caller, and so is an integer of too many digits. -/
def isReported : Abort → Bool
  | unreadableDocument (.integerTooLong _) => false
  | unreadableDocument _ => true
  | invalidDocument error => error.problem.isFormal
  | _ => false

def render (abort : Abort) : String :=
  if abort.isReported then
    Text.released s!"Error: Invalid syntax document: {abort.message}\n"
  else ""

end Abort

inductive Target where
  | standardOutput
  | file (place : Place)
  deriving DecidableEq

inductive Ending where
  | help
  | refused (error : UsageError)
  | broken (abort : Abort)
  | finished (target : Target) (text : String) (failures : Nat)

namespace Ending

def exitCode : Ending → Nat
  | help => 0
  | refused _ => 2
  | broken _ => 1
  | finished _ _ failures => if failures = 0 then 0 else 1

/-- What an ending adds to the notices. -/
def render : Ending → String
  | help => ""
  | refused error => error.render
  | broken abort => abort.render
  | finished _ _ failures =>
    if failures = 0 then "" else s!"{failures} function(s) could not be resolved\n"

end Ending

structure Outcome where
  notices : List Notice := []
  ending : Ending

namespace Outcome

def exitCode (outcome : Outcome) : Nat := outcome.ending.exitCode

def standardOutput (outcome : Outcome) : String :=
  match outcome.ending with
  | .help => UsageError.usage
  | .finished .standardOutput text _ => text
  | _ => ""

def standardError (outcome : Outcome) : String :=
  String.join (outcome.notices.map Notice.render) ++ outcome.ending.render

/-- What broke a run off and is left to the caller. -/
def exception? (outcome : Outcome) : Option Abort :=
  match outcome.ending with
  | .broken abort => if abort.isReported then none else some abort
  | _ => none

def written? (outcome : Outcome) : Option (Place × String) :=
  match outcome.ending with
  | .finished (.file place) text _ => some (place, text)
  | _ => none

def files (outcome : Outcome) (workspace : Workspace) : Workspace :=
  outcome.written?.elim workspace fun (place, text) => workspace.write place text

end Outcome

end TypeSchema.Command
