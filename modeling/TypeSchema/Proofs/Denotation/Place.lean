import TypeSchema.Proofs.Denotation.Graph
import TypeSchema.Proofs.Resolution.Success

/-!
# Schemas and type expressions as graphs

The nodes of a model are its schemas; a reference stands for the definition of its name. The nodes
on the other side are places in the source: type expressions, members, tuple elements, enums and
their values. There a parenthesis stands for what it encloses and a type reference for the body of
the first declaration of its name, and no table of definitions occurs.
-/

namespace TypeSchema

/-- The steps from a node to its children. A member, a tuple element and an enum member are nodes
of their own, whose content is one step further. -/
inductive Selector where
  | element
  | part (index : Nat)
  | position (index : Nat)
  | member (name : String)
  | enumMember (index : Nat)
  | content
  deriving DecidableEq

/-- The kind of a node with everything that it tells by itself: its literal, name, flag or position
and the number or the names of its children. -/
inductive Label where
  | any
  | bigInt
  | number
  | string
  | boolean
  | null
  | undefined
  | booleanLiteral (value : Bool)
  | stringLiteral (value : Json)
  | numberLiteral (value : Json)
  | bigIntLiteral (value : Int)
  | array
  | union (parts : Nat)
  | intersection (parts : Nat)
  | tuple (elements : Nat)
  | tupleElement (position : Int)
  | object (names : List (Option String))
  | member (name : String) (optional : Bool)
  | enum (name : String) (names : List (Option String))
  | enumMember (name : String)
  | foreign (word : String)

namespace Schema

/-- The name of a member of an object or of an enum. -/
def memberName? : Schema → Option String
  | .member name _ _ | .enumMember name _ => some name
  | _ => none

def label? : Schema → Option Label
  | .any => some .any
  | .bigInt => some .bigInt
  | .number => some .number
  | .string => some .string
  | .boolean => some .boolean
  | .null => some .null
  | .undefined => some .undefined
  | .booleanLiteral value => some (.booleanLiteral value)
  | .stringLiteral value => some (.stringLiteral value)
  | .numberLiteral value => some (.numberLiteral value)
  | .bigIntLiteral value => some (.bigIntLiteral value)
  | .array _ => some .array
  | .union parts => some (.union parts.length)
  | .intersection parts => some (.intersection parts.length)
  | .tuple elements => some (.tuple elements.length)
  | .tupleElement position _ => some (.tupleElement position)
  | .object members => some (.object (members.map memberName?))
  | .member name optional _ => some (.member name optional)
  | .enum name members => some (.enum name (members.map memberName?))
  | .enumMember name _ => some (.enumMember name)
  | .foreign word => some (.foreign word)
  | .reference _ => none

def child? : Schema → Selector → Option Schema
  | .array element, .element => some element
  | .union parts, .part index | .intersection parts, .part index => parts[index]?
  | .tuple elements, .position index => elements[index]?
  | .object members, .member name => members.find? (isMember name)
  | .enum _ members, .enumMember index => members[index]?
  | .tupleElement _ inner, .content | .member _ _ inner, .content
  | .enumMember _ inner, .content => some inner
  | _, _ => none

end Schema

/-- The schemas of a model; a reference stands for the definition of its name. -/
def Model.graph (model : Model) : Graph Schema Label Selector where
  next
    | .reference name => model.deps.lookup name
    | _ => none
  label := Schema.label?
  child := Schema.child?

theorem Model.graph_proper (model : Model) : model.graph.Proper where
  next_of_label := by
    intro schema label h
    cases schema <;> first | rfl | simp [graph, Schema.label?] at h
  next_of_child := by
    intro schema selector child h
    cases schema <;> first | rfl | simp [graph, Schema.child?] at h

/-- A place in the source at which a type is described. -/
inductive Place where
  | type (type : TypeExpr)
  | element (position : Nat) (type : TypeExpr)
  | member (name : String) (optional : Bool) (type : TypeExpr)
  | enum (name : String) (members : List EnumMember)
  | enumMember (member : EnumMember)
  | value (evaluated : Evaluated)

/-- What a reference to a declaration stands for. -/
def Declaration.place? (aliases : Bool) : Declaration → Option Place
  | .enum _ name members => some (.enum name members)
  | .enumMember member => some (.enumMember member)
  | .interface _ _ members _ => some (.type (.object none members))
  | .typeAlias _ _ type => if aliases then some (.type type) else none
  | .other _ _ _ | .foreign _ _ _ => none

theorem Declaration.exists_place_of_isFollowed {aliases : Bool} {declaration : Declaration}
    (h : declaration.isFollowed aliases) : ∃ target, declaration.place? aliases = some target := by
  cases declaration <;> simp_all [isFollowed, place?]

/-- The text of the name of a property. -/
def Member.name? : Member → Option String
  | .property _ name _ _ => name.plain.toOption
  | _ => none

/-- The place of a property, if it has the given name. -/
def Member.place? (name : String) : Member → Option Place
  | .property _ spelt (some type) optional =>
    if spelt.plain.toOption = some name then some (.member name optional type) else none
  | _ => none

namespace Environment

variable (env : Environment)

/-- What a name stands for, by its first declaration. -/
def place? (aliases : Bool) (name : String) : Option Place :=
  (env.declarations name).head?.bind (Declaration.place? aliases)

theorem place?_of_declarations {aliases : Bool} {name : String} {first : Declaration}
    {others : List Declaration} (h : env.declarations name = first :: others) :
    env.place? aliases name = first.place? aliases := by
  rw [place?, h]
  rfl

/-- The kind of a type expression as it is written; references and parentheses have none. -/
def typeLabel? : TypeExpr → Option Label
  | .keyword _ word => word.schema?.bind Schema.label?
  | .literal _ literal => (env.literalSchema? literal).bind Schema.label?
  | .array _ _ => some .array
  | .union _ parts => some (.union parts.length)
  | .intersection _ parts => some (.intersection parts.length)
  | .tuple _ elements => some (.tuple elements.length)
  | .object _ members => some (.object (members.map Member.name?))
  | .parenthesized _ _ | .reference _ _ _ | .unsupported _ _ | .foreign _ _ => none

/-- The places of the source, with or without the bodies of type aliases. -/
def graph (aliases : Bool) : Graph Place Label Selector where
  next
    | .type (.parenthesized _ inner) => some (.type inner)
    | .type (.reference _ name _) => env.place? aliases name
    | _ => none
  label
    | .type type => env.typeLabel? type
    | .element position _ => some (.tupleElement position)
    | .member name optional _ => some (.member name optional)
    | .enum name members =>
      some (.enum name (members.map fun member => member.memberName.plain.toOption))
    | .enumMember member => member.memberName.plain.toOption.map .enumMember
    | .value evaluated => evaluated.literalSchema?.bind Schema.label?
  child
    | .type (.array _ element), .element => some (.type element)
    | .type (.union _ parts), .part index | .type (.intersection _ parts), .part index =>
      parts[index]?.map .type
    | .type (.tuple _ elements), .position index => elements[index]?.map (.element index)
    | .type (.object _ members), .member name => members.findSome? (Member.place? name)
    | .enum _ members, .enumMember index => members[index]?.map .enumMember
    | .element _ type, .content | .member _ _ type, .content => some (.type type)
    | .enumMember member, .content => some (.value (env.evaluateMember member))
    | _, _ => none

theorem graph_proper (aliases : Bool) : (env.graph aliases).Proper where
  next_of_label := by
    intro place label h
    cases place with
    | type type => cases type <;> first | rfl | simp [graph, typeLabel?] at h
    | _ => rfl
  next_of_child := by
    intro place selector child h
    cases place with
    | type type => cases type <;> first | rfl | simp [graph] at h
    | _ => rfl

end Environment

end TypeSchema
