import TypeSchema.Format.Range

/-!
# The grammar of documents

Which JSON values are documents, said without a reader: what kinds of nodes there are, and for each
kind which fields it must have and of what shape. Fields that are not mentioned can hold anything.
Types and members contain each other, so their grammar is one definition for both.

Some fields hold a value of any kind whose text counts. What such a value must be is a parameter of
the grammar: the format admits any value, and its reader only those that have a text.
-/

namespace TypeSchema

namespace Json

/-- The items of a field that is a list or absent. -/
def listed? (json : Json) (field : String) : Option (List Json) :=
  match json.get? field with
  | none => some []
  | some (array items) => some items
  | some _ => none

/-- The value of a field; a `null` counts as absent. -/
def given? (json : Json) (field : String) : Option Json :=
  match json.get? field with
  | none | some null => none
  | some value => some value

end Json

namespace Format

def HasKind (json : Json) (kind : String) : Prop :=
  json.get? "kind" = some (.text kind) ∧ kind ≠ ""

def HasText (json : Json) (field : String) : Prop :=
  ∃ text, json.get? field = some (.text text)

/-- The field is absent or a list of values that satisfy the condition. -/
def HasAll (P : Json → Prop) (json : Json) (field : String) : Prop :=
  ∃ items, json.listed? field = some items ∧ ∀ item ∈ items, P item

/-- The field is absent, `null` or a value that satisfies the condition. -/
def MayHave (P : Json → Prop) (json : Json) (field : String) : Prop :=
  ∀ value, json.given? field = some value → P value

/-- The field is a value that satisfies the condition. -/
def Has (P : Json → Prop) (json : Json) (field : String) : Prop :=
  ∃ value, json.get? field = some value ∧ P value

/-- The value of the field is shown: it is absent or satisfies the condition. -/
def Shows (P : Json → Prop) (json : Json) (field : String) : Prop :=
  ∀ value, json.get? field = some value → P value

/-- A value has a text unless an integer in it is too long. -/
def IsShowable : Json → Prop
  | .text _ => True
  | json => json.hasLongInteger = false

/-! ### Leaves -/

/-- Where a node says it stands in its source. -/
structure IsLocation (loc : Json) : Prop where
  object : loc.isObject
  file : ∀ file, loc.get? "file" = some file → ∃ name, file = .text name
  line : ∀ line, loc.get? "line" = some line → ∃ n, line = .ofInt n
  column : ∀ column, loc.get? "column" = some column → ∃ n, column = .ofInt n

def IsLocated (json : Json) : Prop := MayHave IsLocation json "loc"

/-- A literal of a kind whose value is its text must have one. -/
structure IsLiteralOf (shown : Json → Prop) (kind : LiteralKind) (json : Json) : Prop where
  text : isValueKind kind → HasText json "text"
  shows : ¬ isValueKind kind → Shows shown json "text"
  located : IsLocated json

def IsLiteral (shown : Json → Prop) (json : Json) : Prop :=
  ∃ kind literalKind, HasKind json kind ∧ literalKinds.lookup kind = some literalKind ∧
    IsLiteralOf shown literalKind json

/-- Any other expression can stand for the value of an enum member as well. -/
def IsInitializer (shown : Json → Prop) (json : Json) : Prop :=
  ∃ kind, HasKind json kind ∧ IsLiteralOf shown ((literalKinds.lookup kind).getD .expression) json

/-- The name of a member, in short or as a node. -/
inductive IsName (shown : Json → Prop) (json : Json) : Prop
  | short {text : String} (short : json = .text text)
  | node {kind : String} (told : HasKind json kind) (known : kind ∈ nameKinds.map Prod.fst)
      (shows : Shows shown json "text") (located : IsLocated json)

/-! ### Types and members -/

/-- The types around one other type, each with the field that holds that. -/
def wrapperFields : List (String × String) :=
  [("ArrayType", "elementType"), ("ParenthesizedType", "type")]

/-- The types that consist of others, each with the field that lists those. -/
def listFields : List (String × String) :=
  [("UnionType", "types"), ("IntersectionType", "types"), ("TupleType", "elements")]

inductive Category where
  | type
  | member

/-- A value is a node of the category. -/
inductive IsNode (shown : Json → Prop) : Category → Json → Prop
  | literal {json : Json} (told : HasKind json "LiteralType") (located : IsLocated json)
      (has : Has (IsLiteral shown) json "literal") : IsNode shown .type json
  | wrapper {json inner : Json} {kind field : String} (told : HasKind json kind)
      (located : IsLocated json) (wraps : (kind, field) ∈ wrapperFields)
      (has : json.get? field = some inner) (part : IsNode shown .type inner) :
      IsNode shown .type json
  | list {json : Json} {items : List Json} {kind field : String} (told : HasKind json kind)
      (located : IsLocated json) (lists : (kind, field) ∈ listFields)
      (has : json.listed? field = some items) (parts : ∀ item ∈ items, IsNode shown .type item) :
      IsNode shown .type json
  | object {json : Json} {items : List Json} (told : HasKind json "TypeLiteral")
      (located : IsLocated json) (has : json.listed? "members" = some items)
      (parts : ∀ item ∈ items, IsNode shown .member item) : IsNode shown .type json
  | reference {json : Json} {items : List Json} (told : HasKind json "TypeReference")
      (located : IsLocated json) (named : HasText json "typeName")
      (has : json.listed? "typeArguments" = some items)
      (parts : ∀ item ∈ items, IsNode shown .type item) : IsNode shown .type json
  | plain {json : Json} {kind : String} (told : HasKind json kind) (located : IsLocated json)
      (other : kind ∉ typeKinds) : IsNode shown .type json
  | property {json : Json} (told : HasKind json "PropertySignature") (located : IsLocated json)
      (named : Has (IsName shown) json "name") (typed : MayHave (IsNode shown .type) json "type") :
      IsNode shown .member json
  | index {json : Json} {parameters : List Json} (told : HasKind json "IndexSignature")
      (located : IsLocated json) (has : json.listed? "parameters" = some parameters)
      (object : ∀ parameter ∈ parameters.head?, parameter.isObject)
      (shows : ∀ parameter ∈ parameters.head?, Shows shown parameter "name")
      (keyed : ∀ parameter ∈ parameters.head?, MayHave (IsNode shown .type) parameter "type")
      (typed : MayHave (IsNode shown .type) json "type") : IsNode shown .member json
  | other {json : Json} {kind : String} (told : HasKind json kind) (located : IsLocated json)
      (known : kind ∈ otherMemberKinds) (named : MayHave (IsName shown) json "name") :
      IsNode shown .member json

abbrev IsType (shown : Json → Prop) (json : Json) : Prop := IsNode shown .type json

abbrev IsMember (shown : Json → Prop) (json : Json) : Prop := IsNode shown .member json

/-! ### Declarations, functions and documents -/

structure IsEnumMember (shown : Json → Prop) (json : Json) : Prop where
  object : json.isObject
  named : Has (IsName shown) json "name"
  initialized : MayHave (IsInitializer shown) json "initializer"
  located : IsLocated json

structure IsBase (shown : Json → Prop) (json : Json) : Prop where
  told : HasKind json "TypeReference"
  type : IsType shown json

/-- Declarations of other kinds than the first three need no more than a name. -/
inductive IsDeclaration (shown : Json → Prop) (json : Json) : Prop
  | enum (told : HasKind json "EnumDeclaration") (named : HasText json "name")
      (located : IsLocated json) (members : HasAll (IsEnumMember shown) json "members")
  | interface (told : HasKind json "InterfaceDeclaration") (named : HasText json "name")
      (located : IsLocated json) (bases : HasAll (IsBase shown) json "heritage")
      (members : HasAll (IsMember shown) json "members")
  | typeAlias (told : HasKind json "TypeAliasDeclaration") (named : HasText json "name")
      (located : IsLocated json) (type : Has (IsType shown) json "type")
  | other {kind : String} (told : HasKind json kind) (named : HasText json "name")
      (located : IsLocated json) (other : kind ∉ declarationKinds)

structure IsParameter (shown : Json → Prop) (json : Json) : Prop where
  object : json.isObject
  named : HasText json "name"
  typed : MayHave (IsType shown) json "type"
  located : IsLocated json

structure IsSignature (shown : Json → Prop) (json : Json) : Prop where
  object : json.isObject
  named : HasText json "name"
  parameters : HasAll (IsParameter shown) json "parameters"
  returns : MayHave (IsType shown) json "returnType"
  located : IsLocated json

structure IsDocument (shown : Json → Prop) (json : Json) : Prop where
  object : json.isObject
  declarations : HasAll (IsDeclaration shown) json "declarations"
  functions : HasAll (IsSignature shown) json "functions"

end Format

end TypeSchema
