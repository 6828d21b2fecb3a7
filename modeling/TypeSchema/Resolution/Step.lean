import TypeSchema.Resolution.Context

/-!
# Rules of resolution

One rule for every kind of type expression, given the resolution of the type expressions inside it.
Keywords and literals stand for their schemas, composite types for the composition of the schemas
of their parts, and parentheses for what they enclose. References go to the first declaration of
their name. A declaration that is met again while it is being resolved becomes a reference to a
definition; in `expand` mode only such declarations do, in `share` mode all of them.
-/

namespace TypeSchema

inductive ReferenceMode where
  | expand
  | share
  deriving DecidableEq

/-- What a resolution is allowed to do, and how it treats references. -/
structure Policy where
  mode : ReferenceMode
  aliases : Bool
  deriving DecidableEq

def Keyword.schema? : Keyword → Option Schema
  | any | unknown => some .any
  | bigInt => some .bigInt
  | boolean => some .boolean
  | trueLiteral => some (.booleanLiteral true)
  | falseLiteral => some (.booleanLiteral false)
  | null => some .null
  | number => some .number
  | string => some .string
  | undefined | void => some .undefined
  | never | object | symbol => none

/-- The text of a member name; computed and private names have none. -/
def PropertyName.plain (name : PropertyName) : Except Failure String :=
  match name.kind with
  | .identifier | .string | .numeric => .ok name.text
  | .computed => .error ⟨.computedName name.text, some (.name name)⟩
  | .privateName => .error ⟨.privateName name.text, some (.name name)⟩
  | .foreign word => .error ⟨.invalidName word, some (.name name)⟩

/-- The literal schema of an evaluated type; the failure is about the given node. -/
def Evaluated.literalSchema (evaluated : Evaluated) (node : Option Node) :
    Except Failure Schema :=
  match evaluated.literalSchema? with
  | some schema => .ok schema
  | none => .error ⟨.notLiteral evaluated.flags, node⟩

namespace Resolve

/-! ### Leaves -/

def keyword (type : TypeExpr) (keyword : Keyword) : Resolve Schema :=
  match keyword.schema? with
  | some schema => pure schema
  | none => fail (.unsupportedKeyword keyword) (.type type)

def literal (env : Environment) (type : TypeExpr) (literal : Literal) : Resolve Schema :=
  match literal.kind with
  | .null => pure .null
  | .trueLiteral => pure (.booleanLiteral true)
  | .falseLiteral => pure (.booleanLiteral false)
  | .string | .numeric => do
    let evaluated ← ofExcept (env.evaluateLiteral literal)
    ofExcept (evaluated.literalSchema (some (.type type)))
  | .bigInt => do
    let evaluated ← ofExcept (env.evaluateLiteral literal)
    if .bigIntLiteral ∈ evaluated.flags then
      return .bigIntLiteral (← ofInteger evaluated.value.toInteger)
    else fail (.notBigInt literal.text) (.type type)
  | kind => fail (.unsupportedLiteral kind) (.type type)

/-! ### Members -/

/-- A member of an object type with the text of its name. -/
def member (resolve : TypeExpr → Resolve Schema) (member : Member) :
    Resolve (String × Schema) :=
  match member with
  | .property _ _ none _ | .index _ _ _ none => fail .memberWithoutType (.member member)
  | .property _ name (some type) optional => do
    let text ← ofExcept name.plain
    let schema ← resolve type
    return (text, .member text optional schema)
  | .index _ _ _ (some _) => fail .indexSignature (.member member)
  | .other _ _ _ | .foreign _ _ => fail .unsupportedMember (.member member)

/-- The members of an object type in order, none of them under a name that was already seen. -/
def members (resolve : TypeExpr → Resolve Schema) (seen : List String) :
    List Member → Resolve (List Schema)
  | [] => pure []
  | first :: rest => do
    let (name, schema) ← member resolve first
    if name ∈ seen then fail (.duplicateMember name) (.member first)
    else
      let others ← members resolve (name :: seen) rest
      return schema :: others

/-! ### References -/

def enumMember (env : Environment) (member : EnumMember) : Resolve Schema := do
  let name ← ofExcept member.memberName.plain
  record (env.memberEvents member)
  let evaluated := env.evaluateMember member
  match evaluated.literalSchema? with
  | some schema => return .enumMember name schema
  | none =>
    fail (.invalidEnumMember member.qualifiedName evaluated.flags)
      (.declaration (.enumMember member))

def declaration (env : Environment) (resolve : TypeExpr → Resolve Schema) :
    Declaration → Resolve Schema
  | .enum _ name enumMembers => do
    let schemas ← enumMembers.mapM (enumMember env)
    return .enum name schemas
  | .interface _ name body bases => do
    record (if bases.isEmpty then [] else [.inheritanceOmitted name (bases.map BaseType.name)])
    let schemas ← members resolve [] body
    return .object schemas
  | .typeAlias _ _ type => resolve type
  | other => fail (.unsupportedDeclaration other.name other.description) (.declaration other)

/-- A declaration that can take part in recursion, given the resolution of its body. -/
def named (mode : ReferenceMode) (name : String) (body : Resolve Schema) : Resolve Schema := do
  let before ← get
  match before.deps.lookup name with
  | some schema => return if mode = .share then .reference name else schema
  | none =>
    if name ∈ before.resolving then
      record [.recursiveReference name before.resolving.reverse]
      markRecursive name
      return .reference name
    else
      let schema ← within name body
      let after ← get
      if mode = .share ∨ name ∈ after.recursive then
        record [.definitionAdded name]
        define name schema
        return if mode = .share then .reference name else schema
      else return schema

/-- A reference to the first declaration of a name, given the resolution of declaration bodies. -/
def reference (env : Environment) (policy : Policy) (body : Declaration → Resolve Schema)
    (type : TypeExpr) (name : String) (arguments : List TypeExpr) : Resolve Schema := do
  let found := env.declarations name
  record (Environment.lookupEvents name found)
  match found with
  | [] => fail (.unresolvedReference name) (.type type)
  | first :: _ =>
    record (if arguments.isEmpty then [] else [.ignoredArguments name])
    let resolved := named policy.mode first.qualifiedName (body first)
    match first with
    | .enumMember member => enumMember env member
    | .enum _ _ _ | .interface _ _ _ _ => resolved
    | .typeAlias _ _ _ =>
      if policy.aliases then resolved
      else fail (.unsupportedReference name first.description) (.type type)
    | .other _ _ _ | .foreign _ _ _ =>
      fail (.unsupportedReference name first.description) (.type type)

/-! ### Types -/

/-- The rule for a type expression, given the resolution of the type expressions inside it and of
the bodies of the declarations that it refers to. -/
def step (env : Environment) (policy : Policy) (resolve : TypeExpr → Resolve Schema)
    (body : Declaration → Resolve Schema) (type : TypeExpr) : Resolve Schema :=
  match type with
  | .keyword _ word => keyword type word
  | .literal _ expression => literal env type expression
  | .array _ element => return .array (← resolve element)
  | .union _ parts => return .union (← parts.mapM resolve)
  | .intersection _ parts => return .intersection (← parts.mapM resolve)
  | .parenthesized _ inner => resolve inner
  | .tuple _ elements =>
    return .tuple ((← elements.mapM resolve).mapIdx fun position schema =>
      .tupleElement position schema)
  | .object _ contents => return .object (← members resolve [] contents)
  | .reference _ name arguments => reference env policy body type name arguments
  | .unsupported _ kind =>
    fail (.unsupportedType (if kind = "" then "unknown" else kind)) (.type type)
  | .foreign _ word => fail (.unsupportedType word) (.type type)

/-- The resolution of a type expression while no more than `budget` type expressions are being
resolved one inside the other. -/
def typeWithin (env : Environment) (policy : Policy) : (budget : Nat) → TypeExpr → Resolve Schema
  | 0, _ => throw .depthExceeded
  | budget + 1, type =>
    let resolve := typeWithin env policy budget
    step env policy resolve (declaration env resolve) type

end Resolve

end TypeSchema
