import TypeSchema.Schema.Basic

/-!
# Writing schemas as JSON

Every schema becomes an object that names its kind under `type`. The digits of a bigint literal are
written as a text, so that readers with binary64 numbers lose none of them. A foreign schema or an
integer of too many digits, at any depth, refuses the whole.

Every schema, model and signature takes a call of its own, inside those for what it is a part of,
and a list of schemas takes `listing` calls more. The whole is refused where there is no more room
for a call.
-/

namespace TypeSchema

/-- Why a schema is not written: its kind is unknown, its digits are too many to be known, or it
stands too deep. -/
inductive EncodeError where
  | unknownKind (word : String)
  | tooManyDigits (value : Int)
  | tooDeep
  deriving DecidableEq

def EncodeError.message : EncodeError → String
  | unknownKind word => "Unknown schema node: " ++ word
  | tooManyDigits _ => Number.writeLimitMessage
  | tooDeep => Json.Excess.tooDeep.message

namespace Schema

/-- What is done inside a number of calls, with the room that they leave. -/
def inCalls {α : Type} (calls room : Nat) (body : Nat → Except EncodeError α) :
    Except EncodeError α :=
  if room < calls then .error .tooDeep else body (room - calls)

theorem inCalls_succ {α : Type} (room : Nat) (body : Nat → Except EncodeError α) :
    inCalls 1 (room + 1) body = body room :=
  if_neg (Nat.not_lt.mpr (Nat.le_add_left 1 room))

theorem inCalls_eq_ok {α : Type} {calls room : Nat} {body : Nat → Except EncodeError α} {a : α}
    (h : inCalls calls room body = .ok a) : body (room - calls) = .ok a := by
  rw [inCalls] at h
  split at h
  · cases h
  · exact h

/-- The decimal digits of an integer, if they can be written. -/
def digits (n : Int) : Except EncodeError String :=
  if (Number.integer n).isTooLong then .error (.tooManyDigits n) else .ok (toString n)

/-- An object that names the kind of a schema first. -/
def tagged (kind : String) (fields : List (String × Json)) : Json :=
  .object (("type", .text kind) :: fields)

mutual

def encode (listing room : Nat) (schema : Schema) : Except EncodeError Json :=
  inCalls 1 room fun room =>
    match schema with
    | any => .ok (tagged "any" [])
    | bigInt => .ok (tagged "bigInt" [])
    | number => .ok (tagged "number" [])
    | string => .ok (tagged "string" [])
    | boolean => .ok (tagged "boolean" [])
    | null => .ok (tagged "null" [])
    | undefined => .ok (tagged "undefined" [])
    | booleanLiteral b => .ok (tagged "booleanLiteral" [("literal", .bool b)])
    | stringLiteral value => .ok (tagged "stringLiteral" [("literal", value)])
    | numberLiteral value => .ok (tagged "numberLiteral" [("literal", value)])
    | bigIntLiteral n => do
      return tagged "bigIntLiteral" [("literal", .text (← digits n))]
    | array element => do
      return tagged "array" [("element", ← encode listing room element)]
    | union parts => do
      let items ← inCalls listing room fun room => encodeAll listing room parts
      return tagged "union" [("oneOf", .array items)]
    | intersection parts => do
      let items ← inCalls listing room fun room => encodeAll listing room parts
      return tagged "intersection" [("parsers", .array items)]
    | tuple elements => do
      let items ← inCalls listing room fun room => encodeAll listing room elements
      return tagged "tuple" [("elements", .array items)]
    | tupleElement position inner => do
      return tagged "tupleElement"
        [("position", .ofInt position), ("parser", ← encode listing room inner)]
    | object members => do
      let items ← inCalls listing room fun room => encodeAll listing room members
      return tagged "object" [("members", .array items)]
    | member name optional inner => do
      return tagged "member"
        [("name", .text name), ("optional", .bool optional),
         ("parser", ← encode listing room inner)]
    | enum name members => do
      let items ← inCalls listing room fun room => encodeAll listing room members
      return tagged "enum" [("name", .text name), ("members", .array items)]
    | enumMember name inner => do
      return tagged "enumMember"
        [("name", .text name), ("parser", ← encode listing room inner)]
    | reference name => .ok (tagged "reference" [("name", .text name)])
    | foreign word => .error (.unknownKind word)

def encodeAll (listing : Nat) (room : Nat) : List Schema → Except EncodeError (List Json)
  | [] => .ok []
  | schema :: rest => do
    let first ← encode listing room schema
    let others ← encodeAll listing room rest
    return first :: others

end

end Schema

def encodeDeps (listing room : Nat) :
    List (String × Schema) → Except EncodeError (List (String × Json))
  | [] => .ok []
  | (name, schema) :: rest => do
    let first ← schema.encode listing room
    let others ← encodeDeps listing room rest
    return (name, first) :: others

def Model.encodeFields (listing room : Nat) (model : Model) :
    Except EncodeError (List (String × Json)) :=
  Schema.inCalls 1 room fun room => do
    let root ← model.root.encode listing room
    let deps ← Schema.inCalls listing room (encodeDeps listing · model.deps)
    return [("root", root), ("deps", .object deps)]

def Model.encode (listing room : Nat) (model : Model) : Except EncodeError Json :=
  Json.object <$> model.encodeFields listing room

def ParameterSchema.encode (listing room : Nat) (parameter : ParameterSchema) :
    Except EncodeError Json := do
  let fields ← parameter.model.encodeFields listing room
  return .object
    (("name", .text parameter.name) :: ("optional", .bool parameter.optional) :: fields)

def SignatureSchema.encode (listing room : Nat) (signature : SignatureSchema) :
    Except EncodeError Json :=
  Schema.inCalls 1 room fun room => do
    let parameters ← Schema.inCalls listing room fun room =>
      signature.parameters.mapM (ParameterSchema.encode listing room)
    let returns ← signature.returns.encode listing room
    return .object
      [("name", .text signature.name), ("parameters", .array parameters), ("returns", returns)]

end TypeSchema
