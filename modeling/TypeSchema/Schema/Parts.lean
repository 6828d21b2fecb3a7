import Mathlib.Algebra.Group.Nat.Defs
import TypeSchema.Schema.Encoder

/-!
# Parts of schemas

What a schema contains at any depth, how many calls its writing takes, and what keeps it from being
written: foreign schemas, bigint literals of too many digits, and too little room for the calls.
-/

namespace TypeSchema

namespace Schema

def children : Schema → List Schema
  | array inner | tupleElement _ inner | member _ _ inner | enumMember _ inner => [inner]
  | union parts | intersection parts | tuple parts | object parts | enum _ parts => parts
  | any | bigInt | number | string | boolean | null | undefined | booleanLiteral _
  | stringLiteral _ | numberLiteral _ | bigIntLiteral _ | reference _ | foreign _ => []

/-- The second schema is the first one or stands inside it, at any depth. -/
inductive Contains : Schema → Schema → Prop
  | here (schema : Schema) : Contains schema schema
  | deeper {schema child part : Schema} (hchild : child ∈ schema.children)
      (hpart : Contains child part) : Contains schema part

mutual

/-- How many calls the writing of a schema nests in each other. -/
def calls (listing : Nat) : Schema → Nat
  | array inner | tupleElement _ inner | member _ _ inner | enumMember _ inner =>
    inner.calls listing + 1
  | union parts | intersection parts | tuple parts | object parts | enum _ parts =>
    callsOfAll listing parts + listing + 1
  | any | bigInt | number | string | boolean | null | undefined | booleanLiteral _
  | stringLiteral _ | numberLiteral _ | bigIntLiteral _ | reference _ | foreign _ => 1

def callsOfAll (listing : Nat) : List Schema → Nat
  | [] => 0
  | first :: rest => max (first.calls listing) (callsOfAll listing rest)

end

end Schema

/-- The schemas that a model is made of: the root and the definitions. -/
def Model.schemas (model : Model) : List Schema := model.root :: model.deps.map Prod.snd

def Model.calls (listing : Nat) (model : Model) : Nat :=
  max (model.root.calls listing)
    (Schema.callsOfAll listing (model.deps.map Prod.snd) + listing) + 1

def SignatureSchema.schemas (signature : SignatureSchema) : List Schema :=
  signature.parameters.flatMap (fun parameter => parameter.model.schemas) ++
    signature.returns.schemas

def SignatureSchema.calls (listing : Nat) (signature : SignatureSchema) : Nat :=
  max ((signature.parameters.map fun parameter => parameter.model.calls listing).foldr max 0 +
      listing)
    (signature.returns.calls listing) + 1

/-! ### Obstacles -/

/-- What keeps schemas from being written whose writing takes a number of calls. -/
inductive IsObstacle (schemas : List Schema) (calls room : Nat) : EncodeError → Prop
  | unknownKind {schema : Schema} {word : String} (hschema : schema ∈ schemas)
      (hpart : schema.Contains (.foreign word)) : IsObstacle schemas calls room (.unknownKind word)
  | tooManyDigits {schema : Schema} {n : Int} (hschema : schema ∈ schemas)
      (hpart : schema.Contains (.bigIntLiteral n)) (long : 10 ^ Number.digitLimit ≤ n.natAbs) :
      IsObstacle schemas calls room (.tooManyDigits n)
  | tooDeep (deep : room < calls) : IsObstacle schemas calls room .tooDeep

/-- Schemas without obstacles to their being written, when that takes a number of calls. -/
structure AreWritable (schemas : List Schema) (calls room : Nat) : Prop where
  known : ∀ schema ∈ schemas, ∀ word, ¬ schema.Contains (.foreign word)
  short : ∀ schema ∈ schemas, ∀ n, schema.Contains (.bigIntLiteral n) →
    n.natAbs < 10 ^ Number.digitLimit
  shallow : calls ≤ room

end TypeSchema
