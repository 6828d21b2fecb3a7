import TypeSchema.Format.Basic
import TypeSchema.Json.Display
import TypeSchema.Limits

/-!
# Reading documents

A document is checked while it is read, from the outside in and in a fixed order, and the first
fault ends the reading. Types are read under a budget that counts how deep they are nested: the
reader of a type is one step, given a reader of the types inside it, iterated as often as the budget
allows.

Every reader takes the value to be read and the pointer to it, within a scope that says what is the
same for a whole document.
-/

namespace TypeSchema.Format

structure Scope where
  /-- The file that nodes come from unless they say otherwise. -/
  file : String
  /-- How deep a value may be nested that is shown as a text. -/
  showing : Nat
  deriving DecidableEq

def fail {α : Type} (problem : Problem) (pointer : Pointer) : Except Error α :=
  .error ⟨problem, pointer⟩

/-! ### Fields -/

def requireObject (json : Json) (pointer : Pointer) : Except Error Unit :=
  if json.isObject then .ok () else fail .notObject pointer

def readKind (json : Json) (pointer : Pointer) : Except Error String := do
  requireObject json pointer
  match json.get? "kind" with
  | some (.text kind) => if kind = "" then fail .missingKind pointer else return kind
  | _ => fail .missingKind pointer

def readString (json : Json) (field : String) (pointer : Pointer) : Except Error String :=
  match json.get? field with
  | some (.text s) => .ok s
  | _ => fail (.notString field) pointer

/-- A list, empty when the field is absent. -/
def readList (json : Json) (field : String) (pointer : Pointer) : Except Error (List Json) :=
  match json.get? field with
  | none => .ok []
  | some (.array items) => .ok items
  | some _ => fail (.notList field) pointer

/-- The text of a field of any kind; an absent one is the empty text. -/
def displayField (scope : Scope) (json : Json) (field : String) (pointer : Pointer) :
    Except Error String :=
  match json.get? field with
  | none => .ok ""
  | some value =>
    (value.display scope.showing).mapError fun excess => ⟨.ofExcess excess, pointer⟩

/-- A flag is set by any value that counts as true. -/
def readFlag (json : Json) (field : String) : Bool :=
  (json.get? field).elim false Json.isTruthy

def readEach {α : Type} (read : Json → Pointer → Except Error α) (pointer : Pointer) :
    Nat → List Json → Except Error (List α)
  | _, [] => .ok []
  | position, json :: rest => do
    let first ← read json (pointer.index position)
    let others ← readEach read pointer (position + 1) rest
    return first :: others

def readAll {α : Type} (read : Json → Pointer → Except Error α) (json : Json) (field : String)
    (pointer : Pointer) : Except Error (List α) := do
  let items ← readList json field pointer
  readEach read (pointer.field field) 0 items

def readOptional {α : Type} (read : Json → Pointer → Except Error α) (json : Json)
    (field : String) (pointer : Pointer) : Except Error (Option α) :=
  match json.get? field with
  | none | some .null => .ok none
  | some value => some <$> read value (pointer.field field)

/-! ### Locations -/

def readCoordinate (json : Json) (field : String) (pointer : Pointer) : Except Error Int :=
  match json.get? field with
  | none => .ok 0
  | some (.number (.integer n)) => .ok n
  | some _ => fail (.notInteger field) pointer

/-- The location of a node, from its `loc` field as far as that goes. -/
def readLocation (scope : Scope) (json : Json) (pointer : Pointer) : Except Error Location :=
  match json.get? "loc" with
  | none | some .null => .ok ⟨scope.file, 0, 0, pointer⟩
  | some (.object fields) => do
    let loc := Json.object fields
    let file ← match loc.get? "file" with
      | none => pure scope.file
      | some (.text name) => pure name
      | some _ => fail .fileNotString pointer
    let line ← readCoordinate loc "line" pointer
    let column ← readCoordinate loc "column" pointer
    return ⟨file, line, column, pointer⟩
  | some _ => fail .locationNotObject pointer

/-! ### Literals and names -/

def readLiteralText (scope : Scope) (kind : LiteralKind) (json : Json) (pointer : Pointer) :
    Except Error String :=
  if isValueKind kind then readString json "text" pointer
  else displayField scope json "text" pointer

def readLiteralOf (scope : Scope) (kind : LiteralKind) (json : Json) (pointer : Pointer) :
    Except Error Literal := do
  let text ← readLiteralText scope kind json pointer
  let location ← readLocation scope json pointer
  return ⟨kind, text, some location⟩

def readLiteral (scope : Scope) (json : Json) (pointer : Pointer) : Except Error Literal := do
  let kind ← readKind json pointer
  match literalKinds.lookup kind with
  | some literalKind => readLiteralOf scope literalKind json pointer
  | none => fail (.unknownLiteralKind kind) pointer

/-- The initializer of an enum member. What is not a literal is kept as an expression. -/
def readInitializer (scope : Scope) (json : Json) (pointer : Pointer) : Except Error Literal := do
  let kind ← readKind json pointer
  readLiteralOf scope ((literalKinds.lookup kind).getD .expression) json pointer

/-- A member name; a plain text is an identifier. -/
def readName (scope : Scope) (json : Json) (pointer : Pointer) : Except Error PropertyName :=
  match json with
  | .text s => .ok ⟨.identifier, s, some ⟨scope.file, 0, 0, pointer⟩⟩
  | _ => do
    let kind ← readKind json pointer
    match nameKinds.lookup kind with
    | some nameKind =>
      let text ← displayField scope json "text" pointer
      let location ← readLocation scope json pointer
      return ⟨nameKind, text, some location⟩
    | none => fail (.unknownNameKind kind) pointer

/-- The name of a member that must have one; an absent name is read as `null`. -/
def readMemberName (scope : Scope) (json : Json) (pointer : Pointer) :
    Except Error PropertyName :=
  readName scope ((json.get? "name").getD .null) (pointer.field "name")

/-! ### Members and types -/

abbrev TypeReader := Json → Pointer → Except Error TypeExpr

def readProperty (scope : Scope) (readType : TypeReader) (json : Json) (pointer : Pointer)
    (location : Location) : Except Error Member := do
  let name ← readMemberName scope json pointer
  let type ← readOptional readType json "type" pointer
  return .property (some location) name type (readFlag json "optional")

/-- An index signature; of its parameters the first one counts. -/
def readIndex (scope : Scope) (readType : TypeReader) (json : Json) (pointer : Pointer)
    (location : Location) : Except Error Member := do
  let parameters ← readList json "parameters" pointer
  let parameter := parameters.head?.getD (.object [])
  let place := (pointer.field "parameters").index 0
  requireObject parameter place
  let name ← displayField scope parameter "name" place
  let key ← readOptional readType parameter "type" place
  let type ← readOptional readType json "type" pointer
  return .index (some location) name key type

def readMember (scope : Scope) (readType : TypeReader) (json : Json) (pointer : Pointer) :
    Except Error Member := do
  let kind ← readKind json pointer
  let location ← readLocation scope json pointer
  if kind = "PropertySignature" then readProperty scope readType json pointer location
  else if kind = "IndexSignature" then readIndex scope readType json pointer location
  else if kind ∈ otherMemberKinds then
    let name ← readOptional (readName scope) json "name" pointer
    return .other (some location) kind name
  else fail (.unknownMemberKind kind) pointer

def readRequired {α : Type} (read : Json → Pointer → Except Error α) (missing : Problem)
    (json : Json) (field : String) (pointer : Pointer) : Except Error α :=
  match json.get? field with
  | some value => read value (pointer.field field)
  | none => fail missing pointer

/-- A type, given a reader of the types inside it. Unknown kinds of types are kept; rejecting them
is up to the resolution. -/
def readTypeStep (scope : Scope) (readType : TypeReader) (json : Json) (pointer : Pointer) :
    Except Error TypeExpr := do
  let kind ← readKind json pointer
  let location := some (← readLocation scope json pointer)
  match keywordKinds.lookup kind with
  | some keyword => return .keyword location keyword
  | none =>
    match kind with
    | "LiteralType" =>
      .literal location <$> readRequired (readLiteral scope) .missingLiteral json "literal" pointer
    | "ArrayType" =>
      .array location <$> readRequired readType .missingElementType json "elementType" pointer
    | "UnionType" => .union location <$> readAll readType json "types" pointer
    | "IntersectionType" => .intersection location <$> readAll readType json "types" pointer
    | "ParenthesizedType" =>
      .parenthesized location <$>
        readRequired readType .missingParenthesizedType json "type" pointer
    | "TupleType" => .tuple location <$> readAll readType json "elements" pointer
    | "TypeLiteral" =>
      .object location <$> readAll (readMember scope readType) json "members" pointer
    | "TypeReference" => do
      let name ← readString json "typeName" pointer
      let arguments ← readAll readType json "typeArguments" pointer
      return .reference location name arguments
    | _ => return .unsupported location kind

def readType (scope : Scope) : (budget : Nat) → TypeReader
  | 0, _, pointer => fail .nestedTooDeeply pointer
  | budget + 1, json, pointer => readTypeStep scope (readType scope budget) json pointer

/-! ### Declarations and functions -/

def readEnumMember (scope : Scope) (enumName : String) (json : Json) (pointer : Pointer) :
    Except Error EnumMember := do
  requireObject json pointer
  let name ← readMemberName scope json pointer
  let initializer ← readOptional (readInitializer scope) json "initializer" pointer
  let location ← readLocation scope json pointer
  return ⟨some location, name.text, enumName, name, initializer⟩

def readBase (readType : TypeReader) (json : Json) (pointer : Pointer) : Except Error BaseType := do
  match ← readType json pointer with
  | .reference location name arguments => return ⟨location, name, arguments⟩
  | _ => fail .baseNotReference pointer

def readDeclarationWith (scope : Scope) (readType : TypeReader) (json : Json) (pointer : Pointer) :
    Except Error Declaration := do
  let kind ← readKind json pointer
  let name ← readString json "name" pointer
  let location := some (← readLocation scope json pointer)
  match kind with
  | "EnumDeclaration" =>
    .enum location name <$> readAll (readEnumMember scope name) json "members" pointer
  | "InterfaceDeclaration" => do
    let bases ← readAll (readBase readType) json "heritage" pointer
    let members ← readAll (readMember scope readType) json "members" pointer
    return .interface location name members bases
  | "TypeAliasDeclaration" =>
    .typeAlias location name <$> readRequired readType .missingAliasType json "type" pointer
  | _ => return .other location name kind

def readParameter (scope : Scope) (readType : TypeReader) (json : Json) (pointer : Pointer) :
    Except Error Parameter := do
  requireObject json pointer
  let name ← readString json "name" pointer
  let type ← readOptional readType json "type" pointer
  let location ← readLocation scope json pointer
  return ⟨some location, name, type, readFlag json "optional"⟩

def readSignatureWith (scope : Scope) (readType : TypeReader) (json : Json) (pointer : Pointer) :
    Except Error Signature := do
  requireObject json pointer
  let parameters ← readAll (readParameter scope readType) json "parameters" pointer
  let name ← readString json "name" pointer
  let returnType ← readOptional readType json "returnType" pointer
  let location ← readLocation scope json pointer
  return ⟨some location, name, parameters, returnType⟩

def readDeclaration (scope : Scope) (budget : Nat) : Json → Pointer → Except Error Declaration :=
  readDeclarationWith scope (readType scope budget)

def readSignature (scope : Scope) (budget : Nat) : Json → Pointer → Except Error Signature :=
  readSignatureWith scope (readType scope budget)

/-! ### Documents -/

/-- Reports a type that is nested too deeply at the declaration or function that holds it. -/
def atOutermost {α : Type} (read : Json → Pointer → Except Error α) (json : Json)
    (pointer : Pointer) : Except Error α :=
  (read json pointer).mapError fun error =>
    if error.problem = .nestedTooDeeply then ⟨.nestedTooDeeply, pointer⟩ else error

def readDocumentWithin (scope : Scope) (budget : Nat) (json : Json) : Except Error Document := do
  if !json.isObject then fail .documentNotObject Pointer.root
  let declarations ← readAll (atOutermost (readDeclaration scope budget)) json "declarations" .root
  let functions ← readAll (atOutermost (readSignature scope budget)) json "functions" .root
  return ⟨declarations, functions, scope.file⟩

def readDocument (limits : Limits) (file : String) (json : Json) : Except Error Document :=
  readDocumentWithin ⟨file, limits.showing⟩ limits.parsing json

/-- A reader of documents remembers the file that it was told last. -/
structure DocumentReader where
  file : String
  deriving DecidableEq

/-- Reads a document. A file given with it is remembered, unless the document is no object. -/
def DocumentReader.read (limits : Limits) (reader : DocumentReader) (json : Json)
    (file : Option String) : Except Error Document × DocumentReader :=
  let file := if json.isObject then file.getD reader.file else reader.file
  (readDocument limits file json, ⟨file⟩)

end TypeSchema.Format
