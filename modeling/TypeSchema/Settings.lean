import TypeSchema.Json.Display
import TypeSchema.Resolution.Step

/-!
# Settings

The settings of a run. They are set one by one from named values, unknown names being ignored, and
only the reference mode is checked, when all are set; the other values are kept as they are and
interpreted where they are used. A mode that is refused is shown, as far as it can be. Some names
are reserved: `__dict__` replaces all values at once, `__class__` and `__weakref__` cannot be set,
and a value under `to_dict` takes the place of the display of the settings.
-/

namespace TypeSchema

def ReferenceMode.name : ReferenceMode → String
  | expand => "expand"
  | share => "share"

def ReferenceMode.all : List ReferenceMode := [expand, share]

def ReferenceMode.ofName? (name : String) : Option ReferenceMode :=
  all.find? (·.name = name)

structure Settings where
  mode : ReferenceMode := .expand
  aliases : Json := .bool false
  /-- The functions to leave out. They alone have no default once all values are replaced. -/
  ignored : Option Json := some (.array [])
  comment : Json := .bool true
  display : Option Json := none

namespace Settings

/-! ### Problems -/

inductive Problem where
  | notObject (value : Json)
  | argumentsNotObject (value : Json)
  | unexpectedArgument (name : String)
  | repeatedArgument (name : String)
  | invalidMode (shown : String)
  | notShown (excess : Json.Excess)
  | valuesNotObject (value : Json)
  | classNotSettable (value : Json)
  | weakReferenceNotSettable
  | displayNotCallable (value : Json)
  | ignoredMissing
  | ignoredNotSearchable (value : Json)

def Problem.message : Problem → String
  | notObject value => s!"'{value.kindWord}' object has no attribute 'items'"
  | argumentsNotObject value =>
    "signature_to_schema.pipeline.config.ResolverConfig() argument after ** must be a mapping, " ++
      s!"not {value.kindWord}"
  | unexpectedArgument name =>
    s!"ResolverConfig.__init__() got an unexpected keyword argument '{name}'"
  | repeatedArgument name =>
    s!"ResolverConfig.__init__() got multiple values for argument '{name}'"
  | invalidMode shown => s!"{shown} is not a valid ReferenceMode"
  | notShown excess => excess.message
  | valuesNotObject value => s!"__dict__ must be set to a dictionary, not a '{value.kindWord}'"
  | classNotSettable value => s!"__class__ must be set to a class, not '{value.kindWord}' object"
  | weakReferenceNotSettable =>
    "attribute '__weakref__' of 'ResolverConfig' objects is not writable"
  | displayNotCallable value => s!"'{value.kindWord}' object is not callable"
  | ignoredMissing => "'ResolverConfig' object has no attribute 'ignore_functions'"
  | ignoredNotSearchable value => s!"argument of type '{value.kindWord}' is not iterable"

/-! ### Values by name -/

abbrev Values := List (String × Json)

def names : List String :=
  ["reference_mode", "resolve_type_aliases", "ignore_functions", "add_generation_comment"]

def values (settings : Settings) : Values :=
  [("reference_mode", .text settings.mode.name), ("resolve_type_aliases", settings.aliases),
   ("add_generation_comment", settings.comment)] ++
    settings.ignored.elim [] (fun value => [("ignore_functions", value)]) ++
    settings.display.elim [] (fun value => [("to_dict", value)])

/-- The problem with a value that is not the name of a mode. -/
def modeProblem (showing : Nat) (value : Json) : Problem :=
  match value.quoted showing with
  | .ok shown => .invalidMode shown
  | .error excess => .notShown excess

def readMode (showing : Nat) (value : Json) : Except Problem ReferenceMode :=
  match value with
  | .text name => (ReferenceMode.ofName? name).elim (.error (modeProblem showing value)) .ok
  | _ => .error (modeProblem showing value)

/-- The settings with the given values, or with their defaults where there is no value. -/
def ofValues (showing : Nat) (values : Values) : Except Problem Settings := do
  let mode ← (values.lookup "reference_mode").elim (.ok .expand) (readMode showing)
  return {
    mode := mode
    aliases := (values.lookup "resolve_type_aliases").getD (.bool false)
    ignored := values.lookup "ignore_functions"
    comment := (values.lookup "add_generation_comment").getD (.bool true)
    display := values.lookup "to_dict" }

def assign (values : Values) (name : String) (value : Json) : Except Problem Values :=
  match name with
  | "__dict__" =>
    match value with
    | .object fields => .ok fields
    | _ => .error (.valuesNotObject value)
  | "__class__" => .error (.classNotSettable value)
  | "__weakref__" => .error .weakReferenceNotSettable
  | _ => .ok (Json.insertField values name value)

/-- Whether a name can be set whatever the values are. -/
def isPermanent (name : String) : Bool :=
  name ∈
    ["reference_mode", "resolve_type_aliases", "add_generation_comment", "to_dict", "__dict__",
     "__class__", "__weakref__"]

/-- Sets a value by its name if the name is known, and else ignores it. -/
def assignKnown (values : Values) (name : String) (value : Json) : Except Problem Values :=
  if isPermanent name || values.any (·.1 = name) then assign values name value else .ok values

/-! ### Reading -/

/-- Settings from an object; what it does not mention keeps its default. -/
def ofJson (showing : Nat) (json : Json) : Except Problem Settings :=
  match json with
  | .object fields => do
    let start : Settings := {}
    let values ←
      fields.foldlM (fun values field => assignKnown values field.1 field.2) start.values
    ofValues showing values
  | _ => .error (.notObject json)

def checkArgument (name : String) : Except Problem Unit :=
  if name ∈ names then .ok ()
  else if name = "self" then .error (.repeatedArgument name)
  else .error (.unexpectedArgument name)

/-- Settings from arguments by name, all of which have to be settings. -/
def ofArguments (showing : Nat) (json : Json) : Except Problem Settings :=
  match json with
  | .object fields => do
    fields.forM fun field => checkArgument field.1
    ofJson showing json
  | _ => .error (.argumentsNotObject json)

def set (showing : Nat) (settings : Settings) (name : String) (value : Json) :
    Except Problem Settings := do
  ofValues showing (← assign settings.values name value)

/-! ### Use -/

def toJson (settings : Settings) : Except Problem Json :=
  match settings.display, settings.ignored with
  | some value, _ => .error (.displayNotCallable value)
  | none, none => .error .ignoredMissing
  | none, some ignored =>
    .ok <| .object
      [("reference_mode", .text settings.mode.name), ("resolve_type_aliases", settings.aliases),
       ("ignore_functions", ignored), ("add_generation_comment", settings.comment)]

def policy (settings : Settings) : Policy := ⟨settings.mode, settings.aliases.isTruthy⟩

def occursIn (part : List Char) : List Char → Bool
  | [] => part.isEmpty
  | c :: rest => part.isPrefixOf (c :: rest) || occursIn part rest

/-- Whether a name is one of the ignored functions: an item of a list, a part of a text or a field
name of an object. Other values cannot be searched. -/
def ignores (settings : Settings) (name : String) : Except Problem Bool :=
  match settings.ignored with
  | none => .error .ignoredMissing
  | some (.array items) =>
    .ok (items.any fun
      | .text s => s = name
      | _ => false)
  | some (.text s) => .ok (occursIn name.toList s.toList)
  | some (.object fields) => .ok (fields.any (·.1 = name))
  | some value => .error (.ignoredNotSearchable value)

end Settings

end TypeSchema
