import TypeSchema.Json.Basic

/-!
# Schemas

A schema describes the shape of a value. Members of objects, elements of tuples and members of
enums are schemas as well, with a place of their own. The literals of texts and numbers keep the
value that they evaluated to, of whatever kind it is. A `foreign` schema is a kind that cannot be
written; it is known by its word only.
-/

namespace TypeSchema

inductive Schema where
  | any
  | bigInt
  | number
  | string
  | boolean
  | null
  | undefined
  | booleanLiteral (value : Bool)
  | stringLiteral (value : Json)
  | numberLiteral (value : Json)
  | bigIntLiteral (value : Int)
  | array (element : Schema)
  | union (parts : List Schema)
  | intersection (parts : List Schema)
  | tuple (elements : List Schema)
  | tupleElement (position : Int) (schema : Schema)
  | object (members : List Schema)
  | member (name : String) (optional : Bool) (schema : Schema)
  | enum (name : String) (members : List Schema)
  | enumMember (name : String) (schema : Schema)
  | reference (name : String)
  | foreign (word : String)
  deriving Inhabited

namespace Schema

def isMember (name : String) : Schema → Bool
  | member other _ _ => other = name
  | _ => false

/-- The first member of an object that has the given name. -/
def member? (schema : Schema) (name : String) : Option Schema :=
  match schema with
  | object members => members.find? (isMember name)
  | _ => none

end Schema

/-- A schema with the table of the definitions that its references name, in the order in which
they were completed. -/
structure Model where
  root : Schema
  deps : List (String × Schema) := []

structure ParameterSchema where
  name : String
  optional : Bool
  model : Model

/-- The schemas of the parameters and of the result of a function. -/
structure SignatureSchema where
  name : String
  parameters : List ParameterSchema
  returns : Model

end TypeSchema
