import TypeSchema.Command.Switch
import TypeSchema.Command.Usage
import TypeSchema.Text.Similarity

/-!
# The words of a command line

Words that start with a hyphen are options, wherever they stand; after the word `--` there are no
more options. The value of an option is attached to it or is the next word, whatever that is.
Letters may be joined behind one hyphen, up to the first that takes a value. A lone hyphen is an
argument.
-/

namespace TypeSchema.Command

/-- An option as it was given. The value of a flag is empty. -/
structure Use where
  switch : Switch
  value : String := ""
  deriving DecidableEq

structure Words where
  uses : List Use
  arguments : List String
  deriving DecidableEq

/-- What a single word says: options, of which the last may wait for its value in the next word. -/
structure WordUses where
  uses : List Use
  waiting : Option (Switch × String) := none

/-- Whether a word starts with a hyphen that something follows. -/
def startsOption (word : String) : Bool :=
  match word.toList with
  | '-' :: _ :: _ => true
  | _ => false

def splitAttached (cs : List Char) : String × Option String :=
  match cs.dropWhile (· ≠ '=') with
  | _ :: value => (String.ofList (cs.takeWhile (· ≠ '=')), some (String.ofList value))
  | [] => (String.ofList cs, none)

def readLetters : List Char → Except UsageError WordUses
  | [] => .ok ⟨[], none⟩
  | c :: rest =>
    match Switch.ofLetter? c with
    | none => .error (.unknownOption (Switch.short c) [])
    | some switch =>
      if switch.takesValue then
        if rest = [] then .ok ⟨[], some (switch, Switch.short c)⟩
        else .ok ⟨[⟨switch, String.ofList rest⟩], none⟩
      else
        (readLetters rest).map fun word => { word with uses := ⟨switch, ""⟩ :: word.uses }

/-- A word that starts with a hyphen: an option by its long name, or else letters. -/
def readOption (word : String) : Except UsageError WordUses :=
  let (name, attached) := splitAttached word.toList
  match Switch.ofLong? name with
  | some switch =>
    match switch.takesValue, attached with
    | true, some value => .ok ⟨[⟨switch, value⟩], none⟩
    | true, none => .ok ⟨[], some (switch, name)⟩
    | false, some _ => .error (.valueNotTaken name)
    | false, none => .ok ⟨[⟨switch, ""⟩], none⟩
  | none =>
    match word.toList with
    | '-' :: '-' :: _ =>
      .error (.unknownOption name (Text.similarTo name (Switch.all.map Switch.long)))
    | cs => readLetters (cs.drop 1)

namespace Words

def withUses (words : Words) (uses : List Use) : Words :=
  { words with uses := uses ++ words.uses }

def withArgument (words : Words) (argument : String) : Words :=
  { words with arguments := argument :: words.arguments }

/-- Sorts the words of a command line into options and arguments. -/
def read : List String → Except UsageError Words
  | [] => .ok ⟨[], []⟩
  | word :: rest =>
    if word = "--" then .ok ⟨[], rest⟩
    else if startsOption word then
      match readOption word with
      | .error error => .error error
      | .ok ⟨uses, none⟩ => (read rest).map (·.withUses uses)
      | .ok ⟨uses, some (switch, name)⟩ =>
        match rest with
        | value :: rest => (read rest).map (·.withUses (uses ++ [⟨switch, value⟩]))
        | [] => .error (.valueMissing name)
    else (read rest).map (·.withArgument word)

def values (words : Words) (switch : Switch) : List String :=
  (words.uses.filter (·.switch = switch)).map (·.value)

def switches (words : Words) : List Switch :=
  (words.uses.map (·.switch)).eraseDups

def paths (words : Words) : List String :=
  words.arguments ++ words.values .config ++ words.values .function

end Words

end TypeSchema.Command
