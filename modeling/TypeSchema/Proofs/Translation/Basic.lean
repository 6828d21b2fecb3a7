import Mathlib.Order.Filter.AtTopBot.Basic
import TypeSchema.Proofs.Reachability.Course

/-!
# Translating source node by node

A type expression can be translated without any state once it is said what a reference to a
declaration becomes: the order of parts is kept, parentheses are dropped, and references to enum
members stand for the members. The bodies of declarations are translated in the same way. Two
translations matter. In the first a reference becomes the name of its declaration; in the second it
becomes the translated body, as far down as a given number of declarations.
-/

namespace TypeSchema

namespace Environment

variable (env : Environment) (aliases : Bool) (definition : Declaration → Option Schema)

/-- What a reference becomes, by the first declaration of its name. -/
def translateReference? (name : String) : Option Schema :=
  match env.declarations name with
  | [] => none
  | .enumMember member :: _ => env.memberSchema? member
  | first :: _ => if first.isFollowed aliases then definition first else none

mutual

/-- The schema of a type expression when references to declarations become their definitions. -/
def translate? : TypeExpr → Option Schema
  | .keyword _ word => word.schema?
  | .literal _ expression => env.literalSchema? expression
  | .array _ element => (translate? element).map .array
  | .union _ parts => (translateAll? parts).map .union
  | .intersection _ parts => (translateAll? parts).map .intersection
  | .parenthesized _ inner => translate? inner
  | .tuple _ elements =>
    (translateAll? elements).map fun schemas =>
      .tuple (schemas.mapIdx fun position schema => .tupleElement position schema)
  | .object _ members => (translateMembers? members).map .object
  | .reference _ name _ => env.translateReference? aliases definition name
  | .unsupported _ _ | .foreign _ _ => none

def translateAll? : List TypeExpr → Option (List Schema)
  | [] => some []
  | type :: rest =>
    (translate? type).bind fun schema => (translateAll? rest).map fun schemas => schema :: schemas

def translateMember? : Member → Option Schema
  | .property _ name (some type) optional =>
    name.plain.toOption.bind fun text => (translate? type).map fun schema =>
      .member text optional schema
  | _ => none

def translateMembers? : List Member → Option (List Schema)
  | [] => some []
  | member :: rest =>
    (translateMember? member).bind fun schema =>
      (translateMembers? rest).map fun schemas => schema :: schemas

end

/-- The schema of the body of a declaration. -/
def translateBody? : Declaration → Option Schema
  | .enum _ name members => (members.mapM env.memberSchema?).map (.enum name)
  | .interface _ _ members _ => (env.translateMembers? aliases definition members).map .object
  | .typeAlias _ _ type => env.translate? aliases definition type
  | .enumMember _ | .other _ _ _ | .foreign _ _ _ => none

/-- References become the names of their declarations. -/
def named? (declaration : Declaration) : Option Schema :=
  some (.reference declaration.qualifiedName)

/-- References become the bodies of their declarations, down to the given number of declarations one
inside the other. -/
def inlinedBody? : (depth : Nat) → Declaration → Option Schema
  | 0, _ => none
  | depth + 1, declaration => env.translateBody? aliases (inlinedBody? depth) declaration

end Environment

namespace Resolve

open Filter

/-! ### Resolutions translate -/

variable {ι : Type} {env : Environment} {policy : Policy} {aliases : Bool} {l : Filter ι}
  {definition : ι → Declaration → Option Schema} {good : Context → Prop} {c c' : Context}
  {schema : Schema} {type : TypeExpr}

/-- Wherever a resolution ends in a good state, its result is in the end the translation of the type
expression. -/
def Translates (env : Environment) (aliases : Bool) (l : Filter ι)
    (definition : ι → Declaration → Option Schema) (good : Context → Prop) (type : TypeExpr)
    (c : Context) (schema : Schema) (c' : Context) : Prop :=
  c.Yields [] schema.references c' ∧
    (good c' → ∀ᶠ i in l, env.translate? aliases (definition i) type = some schema)

/-- States that a resolution goes on from are good if the state in which it ends is. -/
def Backward (good : Context → Prop) : Prop :=
  ∀ c c', Context.Extends c c' → good c' → good c

theorem sequence_translates (backward : Backward good) {types : List TypeExpr}
    {schemas : List Schema}
    (h : Sequence (Translates env aliases l definition good) types c schemas c')
    (hgood : good c') :
    c.Extends c' ∧
      ∀ᶠ i in l, env.translateAll? aliases (definition i) types = some schemas := by
  induction h with
  | nil => exact ⟨.refl _, .of_forall fun _ => rfl⟩
  | cons head _ ih =>
      obtain ⟨hextends, hrest⟩ := ih hgood
      refine ⟨head.1.1.trans hextends, ?_⟩
      filter_upwards [head.2 (backward _ _ hextends hgood), hrest] with i hfirst hrest
      rw [Environment.translateAll?, hfirst, hrest]
      rfl

theorem memberRule_translates (backward : Backward good) {seen : List String}
    {members : List Member} {schemas : List Schema}
    (h : MemberRule (Translates env aliases l definition good) seen members c schemas c')
    (hgood : good c') :
    c.Extends c' ∧
      ∀ᶠ i in l, env.translateMembers? aliases (definition i) members = some schemas := by
  induction h with
  | nil => exact ⟨.refl _, .of_forall fun _ => rfl⟩
  | cons plain head _ _ ih =>
      obtain ⟨hextends, hrest⟩ := ih hgood
      refine ⟨head.1.1.trans hextends, ?_⟩
      filter_upwards [head.2 (backward _ _ hextends hgood), hrest] with i hfirst hrest
      rw [Environment.translateMembers?, Environment.translateMember?, plain, hfirst, hrest]
      rfl

theorem mapM_memberSchema?_eq {members : List EnumMember} {schemas : List Schema}
    (h : List.Forall₂ (fun member schema => env.memberSchema? member = some schema) members
      schemas) : members.mapM env.memberSchema? = some schemas := by
  induction h with
  | nil => rfl
  | cons head _ ih =>
      rw [List.mapM_cons, head, ih]
      rfl

theorem bodyRule_translates (backward : Backward good) {declaration : Declaration}
    (h : BodyRule env (Translates env aliases l definition good) declaration c schema c')
    (hgood : good c') :
    ∀ᶠ i in l, env.translateBody? aliases (definition i) declaration = some schema := by
  cases h with
  | enum values =>
      refine .of_forall fun i => ?_
      rw [Environment.translateBody?, mapM_memberSchema?_eq values]
      rfl
  | interface contents =>
      filter_upwards [(memberRule_translates backward contents hgood).2] with i hmembers
      rw [Environment.translateBody?, hmembers]
      rfl
  | typeAlias aliased => exact aliased.2 hgood

theorem translateReference?_of_followed {definition : Declaration → Option Schema} {name : String}
    {first : Declaration} {others : List Declaration}
    (found : env.declarations name = first :: others) (followed : first.isFollowed aliases) :
    env.translateReference? aliases definition name = definition first := by
  rw [Environment.translateReference?, found]
  cases first with
  | enumMember member => simp [Declaration.isFollowed] at followed
  | _ => simp [followed]

/-- **Resolutions translate.** When every reference to a declaration becomes its definition, every
successful resolution that ends in a good state gives the translation of the type expression. -/
theorem typeWithin_translates (backward : Backward good)
    (hnamed : ∀ {name first others c schema c'}, env.declarations name = first :: others →
      NamedRule policy.mode first.qualifiedName
        (BodyRule env (Translates env policy.aliases l definition good) first) c schema c' →
          good c' → ∀ᶠ i in l, definition i first = some schema)
    {budget : Nat} (h : typeWithin env policy budget type c = .ok schema c') :
    Translates env policy.aliases l definition good type c schema c' := by
  refine ⟨typeWithin_yields [] h, ?_⟩
  refine rule_induction_with (P := fun type _ schema c' => good c' →
    ∀ᶠ i in l, env.translate? policy.aliases (definition i) type = some schema)
    (typeWithin_yields []) ?_ h
  intro type c schema c' hrule hgood
  cases hrule with
  | keyword meaning | literal meaning => exact .of_forall fun i => meaning
  | array inner =>
      filter_upwards [inner.2 hgood] with i hinner
      rw [Environment.translate?, hinner]
      rfl
  | parenthesized inner => exact inner.2 hgood
  | union inner | intersection inner | tuple inner =>
      filter_upwards [(sequence_translates backward inner hgood).2] with i hinner
      rw [Environment.translate?, hinner]
      rfl
  | object inner =>
      filter_upwards [(memberRule_translates backward inner hgood).2] with i hinner
      rw [Environment.translate?, hinner]
      rfl
  | reference inner =>
      cases inner with
      | member found value _ =>
          refine .of_forall fun i => ?_
          rw [Environment.translate?, Environment.translateReference?, found]
          exact value
      | definition found followed named =>
          filter_upwards [hnamed found named hgood] with i hdefinition
          rw [Environment.translate?, translateReference?_of_followed found followed]
          exact hdefinition

end Resolve

end TypeSchema
