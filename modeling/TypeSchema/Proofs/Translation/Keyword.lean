import TypeSchema.Resolution.Step

/-!
# Keywords by the values they admit

A keyword admits some of the values of the language, and so does a schema without parts. A keyword
stands for the schema that admits the same values. Only objects, symbols and no value at all are
admitted by no such schema, so these three keywords are refused.
-/

namespace TypeSchema

/-- The values that keywords tell apart. -/
inductive PlainValue where
  | undefined
  | null
  | boolean (value : Bool)
  | number
  | string
  | bigInt
  | symbol
  | object
  deriving DecidableEq

theorem PlainValue.forall_iff {P : PlainValue → Prop} :
    (∀ value, P value) ↔ P .undefined ∧ P .null ∧ P (.boolean false) ∧ P (.boolean true) ∧
      P .number ∧ P .string ∧ P .bigInt ∧ P .symbol ∧ P .object := by
  constructor
  · intro h
    exact ⟨h _, h _, h _, h _, h _, h _, h _, h _, h _⟩
  · rintro ⟨hundefined, hnull, hfalse, htrue, hnumber, hstring, hbigInt, hsymbol, hobject⟩
    rintro (_ | _ | ⟨_ | _⟩ | _ | _ | _ | _ | _)
    all_goals assumption

def Keyword.admits : Keyword → PlainValue → Bool
  | any, _ | unknown, _ => true
  | never, _ => false
  | undefined, value | void, value => value = .undefined
  | null, value => value = .null
  | boolean, value => value = .boolean true || value = .boolean false
  | trueLiteral, value => value = .boolean true
  | falseLiteral, value => value = .boolean false
  | number, value => value = .number
  | string, value => value = .string
  | bigInt, value => value = .bigInt
  | symbol, value => value = .symbol
  | object, value => value = .object

/-- The values that a schema without parts admits. Literals but for the two booleans admit one value
of many that keywords do not tell apart. -/
def Schema.admits? : Schema → Option (PlainValue → Bool)
  | any => some fun _ => true
  | undefined => some fun value => value = .undefined
  | null => some fun value => value = .null
  | boolean => some fun value => value = .boolean true || value = .boolean false
  | booleanLiteral b => some fun value => value = .boolean b
  | number => some fun value => value = .number
  | string => some fun value => value = .string
  | bigInt => some fun value => value = .bigInt
  | _ => none

/-- A keyword stands for the schema that admits the same values, and is refused if none does. -/
theorem Keyword.schema?_eq_some_iff {word : Keyword} {schema : Schema} :
    word.schema? = some schema ↔ schema.admits? = some word.admits := by
  cases word <;> cases schema <;>
    simp [schema?, Schema.admits?, admits, funext_iff, PlainValue.forall_iff]

end TypeSchema
