import TypeSchema.Text.Quoted
import TypeSchema.Text.Utf8

/-!
# Files

A run sees files by their bytes and directories by their names, and some of both it may not read or
write. A place is given by the names that lead to it from the root; a path is a text that leads to a
place from the working directory. A path is followed name by name, each in a directory that exists;
every directory that exists can be searched.
-/

namespace TypeSchema.Command

/-- A place among the files: the names that lead to it from the root. -/
abbrev Place := List String

namespace Place

def name (place : Place) : String := place.getLast?.getD ""

def render (place : Place) : String := "/" ++ String.intercalate "/" place

end Place

inductive PathProblem where
  | notFound
  | notDirectory
  | isDirectory
  | nameTooLong
  | denied
  deriving DecidableEq

def PathProblem.message (problem : PathProblem) (path : String) : String :=
  let reason := match problem with
    | notFound => "[Errno 2] No such file or directory"
    | notDirectory => "[Errno 20] Not a directory"
    | isDirectory => "[Errno 21] Is a directory"
    | nameTooLong => "[Errno 36] File name too long"
    | denied => "[Errno 13] Permission denied"
  reason ++ ": " ++ Text.quotedHeld path

/-- A single name has at most this many bytes. -/
def nameLimit : Nat := 255

/-- A whole path has at most this many bytes. -/
def pathLimit : Nat := 4095

structure Workspace where
  directory : Place
  files : List (Place × ByteArray)
  /-- Directories besides those that hold the files and the working directory. -/
  folders : List Place := []
  /-- Files and directories that may not be read. -/
  unreadable : List Place := []
  /-- Files that may not be written, and directories in which no file may be created. -/
  unwritable : List Place := []

/-! ### Paths -/

def splitSlashes : List Char → List (List Char)
  | [] => [[]]
  | c :: cs =>
    if c = '/' then [] :: splitSlashes cs
    else
      match splitSlashes cs with
      | part :: parts => (c :: part) :: parts
      | [] => [[c]]

def pathNames (path : String) : List String :=
  ((splitSlashes path.toList).filter (· ≠ [])).map String.ofList

def isAbsolute (path : String) : Bool := path.toList.head? = some '/'

def movingNames (path : String) : List String := (pathNames path).filter (· ≠ ".")

/-- What remains of the slashes at the start of a path: one of them, but two when there are exactly
two. -/
def leadingSlashes (path : String) : String :=
  match (path.toList.takeWhile (· = '/')).length with
  | 0 => ""
  | 2 => "//"
  | _ => "/"

/-- A path without superfluous slashes and without names that stay in place. -/
def tidyPath (path : String) : String :=
  let tidy := leadingSlashes path ++ String.intercalate "/" (movingNames path)
  if tidy = "" then "." else tidy

def holdsNull (path : String) : Bool := '\x00' ∈ path.toList

def lastName (path : String) : String := (movingNames path).getLast?.getD ""

namespace Workspace

def start (workspace : Workspace) (path : String) : Place :=
  if isAbsolute path then [] else workspace.directory

/-- The place that names lead to when `..` cancels the name before it, whatever exists. -/
def follow (place : Place) (names : List String) : Place :=
  names.foldl (fun place name => if name = ".." then place.dropLast else place ++ [name]) place

def resolve (workspace : Workspace) (path : String) : Place :=
  follow (workspace.start path) (movingNames path)

def visited (workspace : Workspace) (path : String) : List Place :=
  let names := movingNames path
  (List.range (names.length + 1)).map fun count => follow (workspace.start path) (names.take count)

/-! ### What exists -/

def contents? (workspace : Workspace) (place : Place) : Option ByteArray :=
  workspace.files.lookup place

def isDirectory (workspace : Workspace) (place : Place) : Bool :=
  place.isPrefixOf workspace.directory || workspace.folders.any (place.isPrefixOf ·) ||
    workspace.files.any (place.isPrefixOf ·.1.dropLast)

def contains (workspace : Workspace) (place : Place) : Bool :=
  (workspace.contents? place).isSome || workspace.isDirectory place

def walk (workspace : Workspace) (place : Place) : List String → Except PathProblem Place
  | [] => .ok place
  | name :: rest =>
    if !workspace.isDirectory place then .error .notDirectory
    else if name = "." then walk workspace place rest
    else if name = ".." then walk workspace place.dropLast rest
    else if nameLimit < name.utf8ByteSize then .error .nameTooLong
    else if workspace.contains (place ++ [name]) then walk workspace (place ++ [name]) rest
    else .error .notFound

/-- The place that a path leads to, names that stay in place aside. -/
def find (workspace : Workspace) (path : String) : Except PathProblem Place :=
  if holdsNull path then .error .notFound
  else if pathLimit < (tidyPath path).utf8ByteSize then .error .nameTooLong
  else walk workspace (workspace.start path) (movingNames path)

/-- What exists where a path leads to, if anything does. -/
def existing? (workspace : Workspace) (path : String) : Option Place :=
  if path = "" ∨ pathLimit < path.utf8ByteSize then none
  else
    match walk workspace (workspace.start path) (pathNames path) with
    | .error _ => none
    | .ok place =>
      if path.toList.getLast? = some '/' ∧ !workspace.isDirectory place then none else some place

/-! ### Permissions -/

def mayRead (workspace : Workspace) (place : Place) : Bool :=
  !workspace.unreadable.contains place

/-- Whether the file in a place may be written, or be created there. -/
def mayWrite (workspace : Workspace) (place : Place) : Bool :=
  if (workspace.contents? place).isSome then !workspace.unwritable.contains place
  else !workspace.unwritable.contains place.dropLast

/-! ### Writing -/

/-- The place of the file that a path opens for writing. It need not exist, but its directory
must. -/
def target (workspace : Workspace) (path : String) : Except PathProblem Place := do
  if path = "" then throw .notFound
  if pathLimit < path.utf8ByteSize then throw .nameTooLong
  match (pathNames path).reverse with
  | [] => throw .isDirectory
  | name :: parents =>
    let directory ← walk workspace (workspace.start path) parents.reverse
    if !workspace.isDirectory directory then throw .notDirectory
    if name = "." ∨ name = ".." ∨ path.toList.getLast? = some '/' then throw .isDirectory
    if nameLimit < name.utf8ByteSize then throw .nameTooLong
    if workspace.isDirectory (directory ++ [name]) then throw .isDirectory
    if !workspace.mayWrite (directory ++ [name]) then throw .denied
    return directory ++ [name]

def put (workspace : Workspace) (place : Place) (bytes : ByteArray) : Workspace :=
  { workspace with
    files := (place, bytes) :: workspace.files.filter (·.1 ≠ place) }

def write (workspace : Workspace) (place : Place) (text : String) : Workspace :=
  workspace.put place text.toUTF8

end Workspace

end TypeSchema.Command
