import TypeSchema.Number.Numeral
import TypeSchema.Schema.Basic

/-!
# Reading schemas from JSON

The counterpart of the encoder. A schema is read from the fields of an object by their names, in
whatever order they stand and whatever stands beside them; the field `type` tells which names are
looked for. The schemas inside the fields are read first, those of no field in particular.
-/

namespace TypeSchema

namespace Json

def text? : Json → Option String
  | text s => some s
  | _ => none

def bool? : Json → Option Bool
  | bool b => some b
  | _ => none

def integer? : Json → Option Int
  | number (.integer n) => some n
  | _ => none

/-- The integer that a text is the decimal numeral of. -/
def decimal? : Json → Option Int
  | text s => Numeral.decimalInteger? s.toList
  | _ => none

def items? : Json → Option (List Json)
  | array items => some items
  | _ => none

def fields? : Json → Option (List (String × Json))
  | object fields => some fields
  | _ => none

end Json

/-- The value of a field, with the schema and the list of schemas that can be read from it. -/
structure SchemaField where
  json : Json
  schema? : Option Schema
  schemas? : Option (List Schema)

namespace Schema

/-- The schema that the fields of an object describe. -/
def ofFields? (fields : List (String × SchemaField)) : Option Schema := do
  let value (key : String) : Option Json := (fields.lookup key).map SchemaField.json
  let text (key : String) : Option String := (value key).bind Json.text?
  let part (key : String) : Option Schema := (fields.lookup key).bind SchemaField.schema?
  let parts (key : String) : Option (List Schema) :=
    (fields.lookup key).bind SchemaField.schemas?
  match ← text "type" with
  | "any" => return any
  | "bigInt" => return bigInt
  | "number" => return number
  | "string" => return string
  | "boolean" => return boolean
  | "null" => return null
  | "undefined" => return undefined
  | "booleanLiteral" => return booleanLiteral (← (value "literal").bind Json.bool?)
  | "stringLiteral" => return stringLiteral (← value "literal")
  | "numberLiteral" => return numberLiteral (← value "literal")
  | "bigIntLiteral" => return bigIntLiteral (← (value "literal").bind Json.decimal?)
  | "array" => return array (← part "element")
  | "union" => return union (← parts "oneOf")
  | "intersection" => return intersection (← parts "parsers")
  | "tuple" => return tuple (← parts "elements")
  | "tupleElement" =>
    return tupleElement (← (value "position").bind Json.integer?) (← part "parser")
  | "object" => return object (← parts "members")
  | "member" =>
    return member (← text "name") (← (value "optional").bind Json.bool?) (← part "parser")
  | "enum" => return enum (← text "name") (← parts "members")
  | "enumMember" => return enumMember (← text "name") (← part "parser")
  | "reference" => return reference (← text "name")
  | _ => none

mutual

def decode? : Json → Option Schema
  | .object fields => ofFields? (decodeFields fields)
  | _ => none

def decodeItems? : Json → Option (List Schema)
  | .array items => decodeAll? items
  | _ => none

def decodeAll? : List Json → Option (List Schema)
  | [] => some []
  | json :: rest => do
    let first ← decode? json
    let others ← decodeAll? rest
    return first :: others

def decodeFields : List (String × Json) → List (String × SchemaField)
  | [] => []
  | (key, json) :: rest => (key, ⟨json, decode? json, decodeItems? json⟩) :: decodeFields rest

end

end Schema

namespace Model

def decodeDep? (field : String × Json) : Option (String × Schema) :=
  (Schema.decode? field.2).map (field.1, ·)

def decode? (json : Json) : Option Model := do
  let root ← (json.get? "root").bind Schema.decode?
  let deps ← ((json.get? "deps").bind Json.fields?).bind (·.mapM decodeDep?)
  return { root, deps }

end Model

def ParameterSchema.decode? (json : Json) : Option ParameterSchema := do
  let name ← (json.get? "name").bind Json.text?
  let optional ← (json.get? "optional").bind Json.bool?
  let model ← Model.decode? json
  return { name, optional, model }

def SignatureSchema.decode? (json : Json) : Option SignatureSchema := do
  let name ← (json.get? "name").bind Json.text?
  let items ← (json.get? "parameters").bind Json.items?
  let parameters ← items.mapM ParameterSchema.decode?
  let returns ← (json.get? "returns").bind Model.decode?
  return { name, parameters, returns }

end TypeSchema
