import TypeSchema.Resolution.Event
import TypeSchema.Resolution.Failure

/-!
# Declaration tables

A table knows the declarations of a program by their qualified names. A name may be declared more
than once; the declarations are kept in the order in which they were added, and references mean the
first. The members of an enum are declared together with it. Their values are evaluated when the
enum is added and kept by qualified name, where a later value takes the place of an earlier one.
-/

namespace TypeSchema

structure DeclarationTable where
  entries : List (String × Declaration) := []
  values : List (String × Evaluated) := []

namespace DeclarationTable

def empty : DeclarationTable := {}

/-- The names that a declaration brings into a table. -/
def entriesOf (declaration : Declaration) : List (String × Declaration) :=
  (declaration.qualifiedName, declaration) ::
    match declaration with
    | .enum _ _ members => members.map fun member => (member.qualifiedName, .enumMember member)
    | _ => []

def valuesOf (declaration : Declaration) : List (String × Evaluated) :=
  match declaration with
  | .enum _ _ members =>
    (Evaluated.ofMembers none members).map fun (member, evaluated) =>
      (member.qualifiedName, evaluated)
  | _ => []

def add (table : DeclarationTable) (declaration : Declaration) : DeclarationTable where
  entries := table.entries ++ entriesOf declaration
  values := table.values ++ valuesOf declaration

def addAll (table : DeclarationTable) (declarations : List Declaration) : DeclarationTable :=
  declarations.foldl add table

def ofList (declarations : List Declaration) : DeclarationTable :=
  empty.addAll declarations

def declarations (table : DeclarationTable) (name : String) : List Declaration :=
  table.entries.filterMap fun entry => if entry.1 = name then some entry.2 else none

/-- The value of an enum member, as it was recorded last. -/
def value? (table : DeclarationTable) (name : String) : Option Evaluated :=
  table.values.reverse.lookup name

/-- The type of an enum member, from the table if its name is known there. -/
def evaluateMember (table : DeclarationTable) (member : EnumMember) : Evaluated :=
  (table.value? member.qualifiedName).getD (.ofUnregistered member)

def initializerEvents (member : EnumMember) : List Event :=
  match member.initializer with
  | some literal => if literal.isBrokenNumber then [.brokenInitializer literal.text] else []
  | none => []

def additionEvents (declaration : Declaration) : List Event :=
  match declaration with
  | .enum _ _ members => members.flatMap initializerEvents
  | _ => []

def memberEvents (table : DeclarationTable) (member : EnumMember) : List Event :=
  if (table.value? member.qualifiedName).isSome then [] else initializerEvents member

end DeclarationTable

/-- What a resolution asks about names and values. -/
structure Environment where
  declarations : String → List Declaration
  evaluateLiteral : Literal → Except Failure Evaluated
  evaluateMember : EnumMember → Evaluated
  memberEvents : EnumMember → List Event

namespace Environment

def lookupEvents (name : String) (found : List Declaration) : List Event :=
  if 1 < found.length then [.severalDeclarations found.length name] else []

/-- The type of a literal; a numeral that cannot be read is the literal's fault. -/
def evaluate (literal : Literal) : Except Failure Evaluated :=
  match literal.evaluate? with
  | some evaluated => .ok evaluated
  | none => .error ⟨.invalidLiteral literal.text literal.kind, some (.literal literal)⟩

def ofTable (table : DeclarationTable) : Environment where
  declarations := table.declarations
  evaluateLiteral := evaluate
  evaluateMember := table.evaluateMember
  memberEvents := table.memberEvents

/-- The environment in which every literal and every enum member has one given type. -/
def withFixedType (env : Environment) (evaluated : Evaluated) : Environment :=
  { env with
    evaluateLiteral := fun _ => .ok evaluated
    evaluateMember := fun _ => evaluated
    memberEvents := fun _ => [] }

end Environment

end TypeSchema
