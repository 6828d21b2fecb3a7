import TypeSchema.Json.Basic

/-!
# Options of the command

Every option has a long name; some have a letter as well. A flag stands alone, every other option
takes a value. Every option but the request for help sets a parameter of the run.
-/

namespace TypeSchema.Command

inductive Switch where
  | config
  | function
  | mode
  | aliases
  | indent
  | verbose
  | help
  deriving DecidableEq

namespace Switch

def all : List Switch := [config, function, mode, aliases, indent, verbose, help]

def long : Switch → String
  | config => "--config"
  | function => "--function"
  | mode => "--mode"
  | aliases => "--resolve-type-aliases"
  | indent => "--indent"
  | verbose => "--verbose"
  | help => "--help"

def letter? : Switch → Option Char
  | config => some 'c'
  | function => some 'f'
  | mode => some 'm'
  | verbose => some 'v'
  | aliases | indent | help => none

def takesValue : Switch → Bool
  | config | function | mode | indent => true
  | aliases | verbose | help => false

def ofLong? (word : String) : Option Switch := all.find? (·.long = word)

def ofLetter? (c : Char) : Option Switch := all.find? (·.letter? = some c)

def short (c : Char) : String := String.ofList ['-', c]

def hint (switch : Switch) : String :=
  let quote (name : String) := "'" ++ name ++ "'"
  match switch.letter? with
  | some c => quote switch.long ++ " / " ++ quote (short c)
  | none => quote switch.long

def parameter? : Switch → Option String
  | config => some "config"
  | function => some "functions"
  | mode => some "mode"
  | aliases => some "resolve_type_aliases"
  | indent => some "indent"
  | verbose => some "verbose"
  | help => none

/-- The value of the parameter when the option is absent; `null` where there is none. -/
def default : Switch → Json
  | indent => .ofInt 2
  | aliases | verbose | help => .bool false
  | config | function | mode => .null

end Switch

end TypeSchema.Command
