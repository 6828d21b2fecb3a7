import TypeSchema.Number.Basic

/-!
# JSON values

A JSON value keeps the order of the fields of its objects and tells integers from binary64 numbers.
Reading a field takes the first one of its name; a reader of texts never produces two.
-/

namespace TypeSchema

inductive Json where
  | null
  | bool (value : Bool)
  | number (value : Number)
  | text (value : String)
  | array (items : List Json)
  | object (fields : List (String × Json))
  deriving Inhabited

namespace Json

/-- The field of an object; other values have no fields. -/
def get? (json : Json) (key : String) : Option Json :=
  match json with
  | object fields => fields.lookup key
  | _ => none

def item? (json : Json) (index : Nat) : Option Json :=
  match json with
  | array items => items[index]?
  | _ => none

def isObject : Json → Bool
  | object _ => true
  | _ => false

def ofInt (n : Int) : Json := number (.integer n)

/-- Sets a field: in place if the object has one of the name, otherwise at the end. -/
def insertField (fields : List (String × Json)) (key : String) (value : Json) :
    List (String × Json) :=
  if fields.any (·.1 = key) then
    fields.map fun field => if field.1 = key then (key, value) else field
  else fields ++ [(key, value)]

/-- Empty and zero values, `null` and `false` count as false, all others as true. -/
def isTruthy : Json → Bool
  | null => false
  | bool b => b
  | number n => !n.isZero
  | text s => s ≠ ""
  | array items => !items.isEmpty
  | object fields => !fields.isEmpty

/-! ### Nesting -/

mutual

def depth : Json → Nat
  | array items => depthOfItems items + 1
  | object fields => depthOfFields fields + 1
  | _ => 0

def depthOfItems : List Json → Nat
  | [] => 0
  | json :: rest => max json.depth (depthOfItems rest)

def depthOfFields : List (String × Json) → Nat
  | [] => 0
  | (_, json) :: rest => max json.depth (depthOfFields rest)

end

/-! ### Long integers -/

mutual

/-- Whether an integer of too many digits to be written stands anywhere in a value. -/
def hasLongInteger : Json → Bool
  | number n => n.isTooLong
  | array items => anyLongInteger items
  | object fields => anyLongIntegerField fields
  | _ => false

def anyLongInteger : List Json → Bool
  | [] => false
  | json :: rest => json.hasLongInteger || anyLongInteger rest

def anyLongIntegerField : List (String × Json) → Bool
  | [] => false
  | (_, json) :: rest => json.hasLongInteger || anyLongIntegerField rest

end

/-! ### Setting out -/

/-- Why a value has no text. -/
inductive Excess where
  | integerTooLong
  | tooDeep
  deriving DecidableEq

def Excess.message : Excess → String
  | integerTooLong => Number.writeLimitMessage
  | tooDeep => "maximum recursion depth exceeded"

mutual

/-- What a value is stopped at that is set out from the outside in, while values may be nested as
deep as there is room. -/
def stop? : (room : Nat) → Json → Option Excess
  | 0, _ => some .tooDeep
  | _ + 1, number n => if n.isTooLong then some .integerTooLong else none
  | room + 1, array items => stopInItems? room items
  | room + 1, object fields => stopInFields? room fields
  | _ + 1, null | _ + 1, bool _ | _ + 1, text _ => none

def stopInItems? (room : Nat) : List Json → Option Excess
  | [] => none
  | json :: rest => (stop? room json).or (stopInItems? room rest)

def stopInFields? (room : Nat) : List (String × Json) → Option Excess
  | [] => none
  | (_, json) :: rest => (stop? room json).or (stopInFields? room rest)

end

/-! ### Pointers -/

/-- One step from a value to a part of it. -/
inductive Step where
  | field (name : String)
  | index (position : Nat)
  deriving DecidableEq

def follow? (json : Json) : List Step → Option Json
  | [] => some json
  | .field name :: rest => (json.get? name).bind (follow? · rest)
  | .index position :: rest => (json.item? position).bind (follow? · rest)

theorem follow?_append (json : Json) (first second : List Step) :
    json.follow? (first ++ second) = (json.follow? first).bind (·.follow? second) := by
  induction first generalizing json with
  | nil => simp [follow?]
  | cons step rest ih =>
    cases step <;> simp only [List.cons_append, follow?, Option.bind_assoc, ih]

end Json

/-- A place in a document: the text that names its starting point and the steps from there. -/
structure Pointer where
  base : String
  steps : List Json.Step := []
  deriving DecidableEq

namespace Pointer

def root : Pointer := ⟨"#", []⟩

def field (pointer : Pointer) (name : String) : Pointer :=
  { pointer with steps := pointer.steps ++ [.field name] }

def index (pointer : Pointer) (position : Nat) : Pointer :=
  { pointer with steps := pointer.steps ++ [.index position] }

/-- The text of a pointer: a slash and the field name or index for every step. -/
def render (pointer : Pointer) : String :=
  pointer.steps.foldl
    (fun text step =>
      match step with
      | .field name => text ++ "/" ++ name
      | .index position => text ++ "/" ++ toString position)
    pointer.base

theorem render_field (pointer : Pointer) (name : String) :
    (pointer.field name).render = pointer.render ++ "/" ++ name := by
  simp [render, field]

theorem render_index (pointer : Pointer) (position : Nat) :
    (pointer.index position).render = pointer.render ++ "/" ++ toString position := by
  simp [render, index]

end Pointer

end TypeSchema
