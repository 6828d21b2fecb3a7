import TypeSchema.Command.Run

/-!
# The program

The program looks at the files that its command line mentions, runs the command on what it has seen,
and then prints and writes what the run decided.
-/

namespace TypeSchema.Command

/-- Adds what stands in a place to what is known of the files. -/
def observe (workspace : Workspace) (place : Place) : IO Workspace := do
  try
    let bytes ← IO.FS.readBinFile place.render
    return workspace.put place bytes
  catch _ =>
    try
      let path ← IO.FS.realPath place.render
      if ← path.isDir then return { workspace with folders := place :: workspace.folders }
      else return { workspace.put place .empty with unreadable := place :: workspace.unreadable }
    catch _ => return workspace

/-- What is known of the files after a look at every path in a command line. -/
def observeAll (arguments : List String) : IO Workspace := do
  let directory := (← IO.currentDir).toString
  let workspace : Workspace := { directory := pathNames directory, files := [] }
  match Words.read arguments with
  | .error _ => return workspace
  | .ok words => (words.paths.flatMap workspace.visited).eraseDups.foldlM observe workspace

def Outcome.perform (outcome : Outcome) : IO UInt32 := do
  IO.eprint outcome.standardError
  IO.print outcome.standardOutput
  if let some (place, text) := outcome.written? then IO.FS.writeFile place.render text
  if let some abort := outcome.exception? then IO.eprintln s!"Error: {abort.message}"
  return outcome.exitCode.toUInt32

end TypeSchema.Command

open TypeSchema.Command in
def main (arguments : List String) : IO UInt32 := do
  let workspace ← observeAll arguments
  (execute TypeSchema.Limits.usual workspace arguments).perform
