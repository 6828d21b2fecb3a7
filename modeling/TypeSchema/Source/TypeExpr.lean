import TypeSchema.Source.Literal

/-!
# Type expressions

The types of parameters, results and declarations as they are written, before any name is looked
up. A `foreign` node stands where a type or member is expected but belongs to another family of
nodes; it is known by the word for its kind only.
-/

namespace TypeSchema

mutual

inductive TypeExpr where
  | keyword (location : Option Location) (keyword : Keyword)
  | literal (location : Option Location) (literal : Literal)
  | array (location : Option Location) (element : TypeExpr)
  | union (location : Option Location) (parts : List TypeExpr)
  | intersection (location : Option Location) (parts : List TypeExpr)
  | parenthesized (location : Option Location) (inner : TypeExpr)
  | tuple (location : Option Location) (elements : List TypeExpr)
  | object (location : Option Location) (members : List Member)
  | reference (location : Option Location) (name : String) (arguments : List TypeExpr)
  | unsupported (location : Option Location) (kind : String)
  | foreign (location : Option Location) (word : String)

inductive Member where
  | property (location : Option Location) (name : PropertyName) (type : Option TypeExpr)
      (optional : Bool)
  | index (location : Option Location) (parameter : String) (key type : Option TypeExpr)
  | other (location : Option Location) (kind : String) (name : Option PropertyName)
  | foreign (location : Option Location) (word : String)

end

instance : Inhabited TypeExpr := ⟨.keyword none .any⟩

instance : Inhabited Member := ⟨.other none "" none⟩

namespace TypeExpr

def location : TypeExpr → Option Location
  | keyword location _ | literal location _ | array location _ | union location _
  | intersection location _ | parenthesized location _ | tuple location _ | object location _
  | reference location _ _ | unsupported location _ | foreign location _ => location

end TypeExpr

def Member.location : Member → Option Location
  | property location _ _ _ | index location _ _ _ | other location _ _
  | foreign location _ => location

/-! ### Nesting -/

mutual

/-- The nesting depth of a type expression; a leaf has depth one. Type arguments and the keys of
index signatures count, although they are never resolved. -/
def TypeExpr.depth : TypeExpr → Nat
  | .array _ element => element.depth + 1
  | .union _ parts => TypeExpr.depthOfAll parts + 1
  | .intersection _ parts => TypeExpr.depthOfAll parts + 1
  | .parenthesized _ inner => inner.depth + 1
  | .tuple _ elements => TypeExpr.depthOfAll elements + 1
  | .object _ members => Member.depthOfAll members + 1
  | .reference _ _ arguments => TypeExpr.depthOfAll arguments + 1
  | .keyword _ _ | .literal _ _ | .unsupported _ _ | .foreign _ _ => 1

def TypeExpr.depthOfAll : List TypeExpr → Nat
  | [] => 0
  | type :: rest => max type.depth (TypeExpr.depthOfAll rest)

def TypeExpr.depthOfOption : Option TypeExpr → Nat
  | none => 0
  | some type => type.depth

def Member.depth : Member → Nat
  | .property _ _ type _ => TypeExpr.depthOfOption type
  | .index _ _ key type => max (TypeExpr.depthOfOption key) (TypeExpr.depthOfOption type)
  | .other _ _ _ | .foreign _ _ => 0

def Member.depthOfAll : List Member → Nat
  | [] => 0
  | member :: rest => max member.depth (Member.depthOfAll rest)

end

end TypeSchema
