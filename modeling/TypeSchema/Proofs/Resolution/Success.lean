import Mathlib.Data.List.Forall2
import TypeSchema.Resolution.Resolver

/-!
# Successful resolutions

What it takes for the resolution of a type expression to succeed, rule by rule: which parts are
resolved, from which state, and in which state the rule ends. The rules are stated once, over any
account `R` of how the parts are resolved, and `Resolve.step` succeeds exactly as they say. A
property of states and schemas that the rules keep therefore holds of every successful resolution,
whatever its depth.
-/

namespace TypeSchema

/-- What a reference to a finished definition becomes. -/
def ReferenceMode.occurrence (mode : ReferenceMode) (name : String) (schema : Schema) : Schema :=
  if mode = .share then .reference name else schema

/-- Whether references go on into the body of a declaration. -/
def Declaration.isFollowed (aliases : Bool) : Declaration → Bool
  | .enum _ _ _ | .interface _ _ _ _ => true
  | .typeAlias _ _ _ => aliases
  | .enumMember _ | .other _ _ _ | .foreign _ _ _ => false

namespace Environment

/-- The schema of a literal type, if it has one. -/
def literalSchema? (env : Environment) (literal : Literal) : Option Schema :=
  match literal.kind with
  | .null => some .null
  | .trueLiteral => some (.booleanLiteral true)
  | .falseLiteral => some (.booleanLiteral false)
  | .string | .numeric =>
    (env.evaluateLiteral literal).toOption.bind fun evaluated => evaluated.literalSchema?
  | .bigInt =>
    (env.evaluateLiteral literal).toOption.bind fun evaluated =>
      if .bigIntLiteral ∈ evaluated.flags then
        evaluated.value.toInteger.toOption.map .bigIntLiteral
      else none
  | _ => none

/-- The schema of an enum member, if it has one. -/
def memberSchema? (env : Environment) (member : EnumMember) : Option Schema :=
  member.memberName.plain.toOption.bind fun text =>
    (env.evaluateMember member).literalSchema?.map (.enumMember text)

theorem memberSchema?_eq_some_iff {env : Environment} {member : EnumMember} {schema : Schema} :
    env.memberSchema? member = some schema ↔
      ∃ text value, member.memberName.plain.toOption = some text ∧
        (env.evaluateMember member).literalSchema? = some value ∧
          .enumMember text value = schema := by
  simp [memberSchema?, Option.bind_eq_some_iff]

end Environment

/-! ### Leaves -/

/-- The schemas that hold no other schema and no name of one. -/
def Schema.isLeaf : Schema → Bool
  | .any | .bigInt | .number | .string | .boolean | .null | .undefined | .booleanLiteral _
  | .stringLiteral _ | .numberLiteral _ | .bigIntLiteral _ => true
  | _ => false

theorem Keyword.isLeaf_of_schema? {word : Keyword} {schema : Schema}
    (h : word.schema? = some schema) : schema.isLeaf := by
  cases word <;> simp [Keyword.schema?] at h <;> subst h <;> rfl

theorem Evaluated.isLeaf_of_literalSchema? {evaluated : Evaluated} {schema : Schema}
    (h : evaluated.literalSchema? = some schema) : schema.isLeaf := by
  unfold Evaluated.literalSchema? at h
  split at h
  · cases h
    rfl
  · split at h
    · cases h
      rfl
    · cases h

theorem Environment.isLeaf_of_literalSchema? {env : Environment} {expression : Literal}
    {schema : Schema} (h : env.literalSchema? expression = some schema) : schema.isLeaf := by
  unfold Environment.literalSchema? at h
  cases hkind : expression.kind with
  | null | trueLiteral | falseLiteral =>
      simp only [hkind, Option.some.injEq] at h
      subst h
      rfl
  | string | numeric =>
      simp only [hkind] at h
      obtain ⟨evaluated, -, hvalue⟩ := Option.bind_eq_some_iff.mp h
      exact Evaluated.isLeaf_of_literalSchema? hvalue
  | bigInt =>
      simp only [hkind] at h
      obtain ⟨evaluated, -, hvalue⟩ := Option.bind_eq_some_iff.mp h
      split at hvalue
      · obtain ⟨digits, -, rfl⟩ := Option.map_eq_some_iff.mp hvalue
        rfl
      · cases hvalue
  | _ => simp [hkind] at h

namespace Resolve

section Computations

variable {α β : Type} {c c' : Context} {a : α} {b : β}

theorem bind_eq_ok_iff {m : Resolve α} {f : α → Resolve β} :
    (m >>= f) c = .ok b c' ↔ ∃ a middle, m c = .ok a middle ∧ f a middle = .ok b c' := by
  cases h : m c <;> simp [bind, EStateM.bind, h]

theorem pure_eq_ok_iff {a' : α} : (pure a : Resolve α) c = .ok a' c' ↔ a = a' ∧ c = c' := by
  simp [pure, EStateM.pure]

theorem map_eq_ok_iff {m : Resolve α} {f : α → β} :
    (f <$> m) c = .ok b c' ↔ ∃ a, m c = .ok a c' ∧ f a = b := by
  cases h : m c <;> simp [Functor.map, EStateM.map, h, and_comm]

theorem get_bind {f : Context → Resolve α} : (get >>= f) c = f c c := rfl

@[simp] theorem record_run {events : List Event} : record events c = .ok () (c.note events) := rfl

@[simp] theorem markRecursive_run {name : String} : markRecursive name c = .ok () (c.mark name) :=
  rfl

@[simp] theorem define_run {name : String} {schema : Schema} :
    define name schema c = .ok () (c.define name schema) := rfl

@[simp] theorem throw_run {interruption : Interruption} :
    (throw interruption : Resolve α) c = .error interruption c := rfl

@[simp] theorem fail_ne_ok {problem : Problem} {node : Node} :
    (fail problem node : Resolve α) c ≠ .ok a c' := by
  simp [fail]

theorem ofExcept_eq_ok_iff {x : Except Failure α} :
    ofExcept x c = .ok a c' ↔ x.toOption = some a ∧ c = c' := by
  cases x <;> simp [ofExcept, Except.toOption, pure, EStateM.pure]

theorem ofInteger_eq_ok_iff {x : Except Json.IntegerProblem α} :
    ofInteger x c = .ok a c' ↔ x.toOption = some a ∧ c = c' := by
  cases x <;> simp [ofInteger, Except.toOption, pure, EStateM.pure]

theorem within_eq_ok_iff {name : String} {body : Resolve α} :
    within name body c = .ok a c' ↔
      ∃ after, body (c.enter name) = .ok a after ∧ c' = after.leave := by
  cases h : body (c.enter name) <;> simp [within, h, eq_comm]

end Computations

/-! ### The rules

`R` says how the type expressions inside an expression are resolved, `B` how the bodies of
declarations are. -/

/-- From the state before, an input becomes a result in the state after. -/
abbrev Account (α β : Type) := α → Context → β → Context → Prop

/-- A list is resolved item by item, each from the state in which the one before it ended. -/
inductive Sequence {α β : Type} (R : Account α β) : Account (List α) (List β)
  | nil {c : Context} : Sequence R [] c [] c
  | cons {x : α} {y : β} {xs : List α} {ys : List β} {c middle c' : Context}
      (head : R x c y middle) (tail : Sequence R xs middle ys c') :
      Sequence R (x :: xs) c (y :: ys) c'

/-- The members of an object are properties with types and plain names, none of them seen before. -/
inductive MemberRule (R : Account TypeExpr Schema) :
    List String → Account (List Member) (List Schema)
  | nil {seen : List String} {c : Context} : MemberRule R seen [] c [] c
  | cons {seen : List String} {location : Option Location} {name : PropertyName} {text : String}
      {type : TypeExpr} {optional : Bool} {schema : Schema} {members : List Member}
      {schemas : List Schema} {c middle c' : Context}
      (plain : name.plain = .ok text) (head : R type c schema middle) (fresh : text ∉ seen)
      (tail : MemberRule R (text :: seen) members middle schemas c') :
      MemberRule R seen (.property location name (some type) optional :: members) c
        (.member text optional schema :: schemas) c'

/-- The bodies of the declarations that references go on into. -/
inductive BodyRule (env : Environment) (R : Account TypeExpr Schema) : Account Declaration Schema
  | enum {location : Option Location} {name : String} {members : List EnumMember}
      {schemas : List Schema} {c : Context}
      (values : List.Forall₂ (fun member schema => env.memberSchema? member = some schema)
        members schemas) :
      BodyRule env R (.enum location name members) c (.enum name schemas)
        (c.note (members.flatMap env.memberEvents))
  | interface {location : Option Location} {name : String} {members : List Member}
      {bases : List BaseType} {schemas : List Schema} {c c' : Context}
      (contents : MemberRule R [] members (c.note (if bases.isEmpty then []
        else [.inheritanceOmitted name (bases.map BaseType.name)])) schemas c') :
      BodyRule env R (.interface location name members bases) c (.object schemas) c'
  | typeAlias {location : Option Location} {name : String} {type : TypeExpr} {schema : Schema}
      {c c' : Context} (aliased : R type c schema c') :
      BodyRule env R (.typeAlias location name type) c schema c'

/-- A reference to a definition finds it finished, finds it open, or resolves its body; afterwards
the definition is recorded in `share` mode, and in `expand` mode when it was met again. -/
inductive NamedRule (mode : ReferenceMode) (name : String)
    (body : Context → Schema → Context → Prop) : Context → Schema → Context → Prop
  | finished {schema : Schema} {c : Context} (found : c.deps.lookup name = some schema) :
      NamedRule mode name body c (mode.occurrence name schema) c
  | reentered {c : Context} (missing : c.deps.lookup name = none) (entered : name ∈ c.resolving) :
      NamedRule mode name body c (.reference name)
        ((c.note [.recursiveReference name c.resolving.reverse]).mark name)
  | recorded {schema : Schema} {c after : Context} (missing : c.deps.lookup name = none)
      (fresh : name ∉ c.resolving) (resolved : body (c.enter name) schema after)
      (kept : mode = .share ∨ name ∈ after.recursive) :
      NamedRule mode name body c (mode.occurrence name schema)
        ((after.leave.note [.definitionAdded name]).define name schema)
  | inlined {schema : Schema} {c after : Context} (missing : c.deps.lookup name = none)
      (fresh : name ∉ c.resolving) (resolved : body (c.enter name) schema after)
      (dropped : ¬ (mode = .share ∨ name ∈ after.recursive)) :
      NamedRule mode name body c schema after.leave

/-- The first declaration of a name decides what a reference becomes. -/
inductive ReferenceRule (env : Environment) (policy : Policy) (B : Account Declaration Schema)
    (name : String) (arguments : List TypeExpr) : Context → Schema → Context → Prop
  | member {member : EnumMember} {others : List Declaration} {schema : Schema} {c c' : Context}
      (found : env.declarations name = .enumMember member :: others)
      (value : env.memberSchema? member = some schema)
      (ends : c' = ((c.note (Environment.lookupEvents name (env.declarations name))).note
        (if arguments.isEmpty then [] else [.ignoredArguments name])).note
          (env.memberEvents member)) :
      ReferenceRule env policy B name arguments c schema c'
  | definition {first : Declaration} {others : List Declaration} {schema : Schema}
      {c c' : Context} (found : env.declarations name = first :: others)
      (followed : first.isFollowed policy.aliases)
      (named : NamedRule policy.mode first.qualifiedName (B first)
        ((c.note (Environment.lookupEvents name (env.declarations name))).note
          (if arguments.isEmpty then [] else [.ignoredArguments name])) schema c') :
      ReferenceRule env policy B name arguments c schema c'

/-- The rules for type expressions. -/
inductive TypeRule (env : Environment) (policy : Policy) (R : Account TypeExpr Schema)
    (B : Account Declaration Schema) : Account TypeExpr Schema
  | keyword {location : Option Location} {word : Keyword} {schema : Schema} {c : Context}
      (meaning : word.schema? = some schema) :
      TypeRule env policy R B (.keyword location word) c schema c
  | literal {location : Option Location} {literal : Literal} {schema : Schema} {c : Context}
      (meaning : env.literalSchema? literal = some schema) :
      TypeRule env policy R B (.literal location literal) c schema c
  | array {location : Option Location} {element : TypeExpr} {schema : Schema} {c c' : Context}
      (inner : R element c schema c') :
      TypeRule env policy R B (.array location element) c (.array schema) c'
  | union {location : Option Location} {parts : List TypeExpr} {schemas : List Schema}
      {c c' : Context} (inner : Sequence R parts c schemas c') :
      TypeRule env policy R B (.union location parts) c (.union schemas) c'
  | intersection {location : Option Location} {parts : List TypeExpr} {schemas : List Schema}
      {c c' : Context} (inner : Sequence R parts c schemas c') :
      TypeRule env policy R B (.intersection location parts) c (.intersection schemas) c'
  | parenthesized {location : Option Location} {type : TypeExpr} {schema : Schema}
      {c c' : Context} (inner : R type c schema c') :
      TypeRule env policy R B (.parenthesized location type) c schema c'
  | tuple {location : Option Location} {elements : List TypeExpr} {schemas : List Schema}
      {c c' : Context} (inner : Sequence R elements c schemas c') :
      TypeRule env policy R B (.tuple location elements) c
        (.tuple (schemas.mapIdx fun position schema => .tupleElement position schema)) c'
  | object {location : Option Location} {members : List Member} {schemas : List Schema}
      {c c' : Context} (inner : MemberRule R [] members c schemas c') :
      TypeRule env policy R B (.object location members) c (.object schemas) c'
  | reference {location : Option Location} {name : String} {arguments : List TypeExpr}
      {schema : Schema} {c c' : Context}
      (inner : ReferenceRule env policy B name arguments c schema c') :
      TypeRule env policy R B (.reference location name arguments) c schema c'

/-! ### Success is what the rules say -/

section Success

variable {env : Environment} {policy : Policy} {resolve : TypeExpr → Resolve Schema}
  {body : Declaration → Resolve Schema} {c c' : Context}

/-- The account that a computation for every input gives of itself. -/
def Gives {α β : Type} (run : α → Resolve β) : Account α β :=
  fun x c y c' => run x c = .ok y c'

theorem mapM_eq_ok_iff {α β : Type} {run : α → Resolve β} {xs : List α} {ys : List β}
    {c c' : Context} :
    xs.mapM run c = .ok ys c' ↔ Sequence (Gives run) xs c ys c' := by
  induction xs generalizing ys c with
  | nil =>
      rw [List.mapM_nil, pure_eq_ok_iff]
      constructor
      · rintro ⟨rfl, rfl⟩
        exact .nil
      · rintro ⟨⟩
        exact ⟨rfl, rfl⟩
  | cons x xs ih =>
      simp only [List.mapM_cons, bind_eq_ok_iff, pure_eq_ok_iff]
      constructor
      · rintro ⟨y, middle, hhead, ys', _, htail, rfl, rfl⟩
        exact .cons hhead (ih.mp htail)
      · rintro (_ | ⟨hhead, htail⟩)
        exact ⟨_, _, hhead, _, _, ih.mpr htail, rfl, rfl⟩

theorem keyword_eq_ok_iff {type : TypeExpr} {word : Keyword} {schema : Schema} :
    keyword type word c = .ok schema c' ↔ word.schema? = some schema ∧ c = c' := by
  unfold keyword
  cases word.schema? <;> simp [pure_eq_ok_iff]

theorem literal_eq_ok_iff {type : TypeExpr} {expression : Literal} {schema : Schema} :
    literal env type expression c = .ok schema c' ↔
      env.literalSchema? expression = some schema ∧ c = c' := by
  unfold literal Environment.literalSchema?
  cases expression.kind with
  | null | trueLiteral | falseLiteral => simp [pure_eq_ok_iff]
  | string | numeric =>
      cases env.evaluateLiteral expression with
      | error failure => simp [bind_eq_ok_iff, ofExcept_eq_ok_iff, Except.toOption]
      | ok evaluated =>
          cases h : evaluated.literalSchema? <;>
            simp [bind_eq_ok_iff, ofExcept_eq_ok_iff, Except.toOption, Evaluated.literalSchema, h,
              and_comm]
  | bigInt =>
      cases env.evaluateLiteral expression with
      | error failure => simp [bind_eq_ok_iff, ofExcept_eq_ok_iff, Except.toOption]
      | ok evaluated =>
          by_cases hflag : TypeFlag.bigIntLiteral ∈ evaluated.flags
          · cases h : evaluated.value.toInteger <;>
              simp [bind_eq_ok_iff, ofExcept_eq_ok_iff, ofInteger_eq_ok_iff, Except.toOption,
                hflag, h, map_eq_ok_iff, and_comm]
          · simp [bind_eq_ok_iff, ofExcept_eq_ok_iff, Except.toOption, hflag]
  | _ => simp

theorem enumMember_eq_ok_iff {member : EnumMember} {schema : Schema} :
    enumMember env member c = .ok schema c' ↔
      env.memberSchema? member = some schema ∧ c' = c.note (env.memberEvents member) := by
  unfold enumMember Environment.memberSchema?
  cases member.memberName.plain with
  | error failure => simp [bind_eq_ok_iff, ofExcept_eq_ok_iff, Except.toOption]
  | ok text =>
      cases h : (env.evaluateMember member).literalSchema? <;>
        simp [bind_eq_ok_iff, ofExcept_eq_ok_iff, map_eq_ok_iff, Except.toOption, h, and_comm,
          eq_comm (a := c')]

theorem member_property_eq_ok_iff {location : Option Location} {name : PropertyName}
    {type : TypeExpr} {optional : Bool} {text : String} {schema : Schema} :
    Resolve.member resolve (.property location name (some type) optional) c =
        .ok (text, schema) c' ↔
      name.plain = .ok text ∧
        ∃ inner, resolve type c = .ok inner c' ∧ schema = .member text optional inner := by
  cases hplain : name.plain with
  | error failure =>
      simp [Resolve.member, bind_eq_ok_iff, ofExcept_eq_ok_iff, Except.toOption, hplain]
  | ok plain =>
      simp only [Resolve.member, bind_eq_ok_iff, ofExcept_eq_ok_iff, pure_eq_ok_iff, hplain,
        Except.toOption, Prod.mk.injEq, Option.some.injEq, Except.ok.injEq]
      constructor
      · rintro ⟨_, _, ⟨rfl, rfl⟩, inner, _, hinner, ⟨rfl, rfl⟩, rfl⟩
        exact ⟨rfl, inner, hinner, rfl⟩
      · rintro ⟨rfl, inner, hinner, rfl⟩
        exact ⟨_, _, ⟨rfl, rfl⟩, inner, _, hinner, ⟨rfl, rfl⟩, rfl⟩

/-- Only properties with types can be resolved. -/
theorem exists_property_of_member_eq_ok {member : Member} {result : String × Schema}
    (h : Resolve.member resolve member c = .ok result c') :
    ∃ location name type optional, member = .property location name (some type) optional := by
  cases member with
  | property location name type optional =>
      cases type with
      | none => simp [Resolve.member] at h
      | some type => exact ⟨location, name, type, optional, rfl⟩
  | index location parameter key type => cases type <;> simp [Resolve.member] at h
  | other _ _ _ | foreign _ _ => simp [Resolve.member] at h

theorem members_eq_ok_iff {seen : List String} {members : List Member} {schemas : List Schema} :
    Resolve.members resolve seen members c = .ok schemas c' ↔
      MemberRule (Gives resolve) seen members c schemas c' := by
  induction members generalizing seen c schemas with
  | nil =>
      rw [Resolve.members, pure_eq_ok_iff]
      constructor
      · rintro ⟨rfl, rfl⟩
        exact .nil
      · rintro ⟨⟩
        exact ⟨rfl, rfl⟩
  | cons first rest ih =>
      rw [Resolve.members, bind_eq_ok_iff]
      constructor
      · rintro ⟨⟨text, schema⟩, middle, hfirst, hrest⟩
        obtain ⟨location, name, type, optional, rfl⟩ := exists_property_of_member_eq_ok hfirst
        obtain ⟨hplain, inner, hinner, rfl⟩ := member_property_eq_ok_iff.mp hfirst
        by_cases hseen : text ∈ seen
        · simp [hseen] at hrest
        · simp only [hseen, ↓reduceIte, bind_eq_ok_iff, pure_eq_ok_iff] at hrest
          obtain ⟨others, _, hothers, rfl, rfl⟩ := hrest
          exact .cons hplain hinner hseen (ih.mp hothers)
      · rintro (_ | ⟨hplain, hinner, hseen, htail⟩)
        refine ⟨(_, _), _, member_property_eq_ok_iff.mpr ⟨hplain, _, hinner, rfl⟩, ?_⟩
        simp only [hseen, ↓reduceIte, bind_eq_ok_iff, pure_eq_ok_iff]
        exact ⟨_, _, ih.mpr htail, rfl, rfl⟩

theorem mapM_enumMember_eq_ok_iff {members : List EnumMember} {schemas : List Schema} :
    members.mapM (enumMember env) c = .ok schemas c' ↔
      List.Forall₂ (fun member schema => env.memberSchema? member = some schema) members schemas ∧
        c' = c.note (members.flatMap env.memberEvents) := by
  induction members generalizing schemas c c' with
  | nil =>
      cases schemas <;> simp [pure_eq_ok_iff, eq_comm]
  | cons member members ih =>
      simp only [List.mapM_cons, bind_eq_ok_iff, pure_eq_ok_iff, enumMember_eq_ok_iff, ih]
      constructor
      · rintro ⟨schema, _, ⟨hmember, rfl⟩, others, _, ⟨hothers, rfl⟩, rfl, rfl⟩
        refine ⟨.cons hmember hothers, ?_⟩
        rw [Context.note_note, List.flatMap_cons]
      · rintro ⟨_ | ⟨hmember, hothers⟩, rfl⟩
        refine ⟨_, _, ⟨hmember, rfl⟩, _, _, ⟨hothers, rfl⟩, rfl, ?_⟩
        rw [Context.note_note, List.flatMap_cons]

theorem declaration_eq_ok_iff {declaration : Declaration} {schema : Schema} :
    Resolve.declaration env resolve declaration c = .ok schema c' ↔
      BodyRule env (Gives resolve) declaration c schema c' := by
  cases declaration with
  | enum location name members =>
      simp only [Resolve.declaration, bind_eq_ok_iff, pure_eq_ok_iff, mapM_enumMember_eq_ok_iff]
      constructor
      · rintro ⟨schemas, _, ⟨hvalues, rfl⟩, rfl, rfl⟩
        exact .enum hvalues
      · rintro ⟨hvalues⟩
        exact ⟨_, _, ⟨hvalues, rfl⟩, rfl, rfl⟩
  | interface location name members bases =>
      simp only [Resolve.declaration, bind_eq_ok_iff, pure_eq_ok_iff, record_run,
        members_eq_ok_iff]
      constructor
      · rintro ⟨_, _, ⟨⟩, schemas, _, hcontents, rfl, rfl⟩
        exact .interface hcontents
      · rintro ⟨⟩
        rename_i hcontents
        exact ⟨_, _, rfl, _, _, hcontents, rfl, rfl⟩
  | typeAlias location name type =>
      constructor
      · exact fun h => .typeAlias h
      · rintro ⟨⟩
        assumption
  | enumMember member =>
      constructor
      · simp [Resolve.declaration]
      · rintro ⟨⟩
  | other _ _ _ | foreign _ _ _ =>
      constructor
      · simp [Resolve.declaration]
      · rintro ⟨⟩

theorem named_eq_ok_iff {mode : ReferenceMode} {name : String} {run : Resolve Schema}
    {schema : Schema} :
    named mode name run c = .ok schema c' ↔
      NamedRule mode name (fun c s c' => run c = .ok s c') c schema c' := by
  unfold named
  rw [get_bind]
  cases hdeps : c.deps.lookup name with
  | some found =>
      simp only [pure_eq_ok_iff]
      constructor
      · rintro ⟨rfl, rfl⟩
        exact .finished hdeps
      · rintro (hfound | ⟨hmissing, -⟩ | ⟨hmissing, -, -, -⟩ | ⟨hmissing, -, -, -⟩)
        · rw [hdeps] at hfound
          cases hfound
          exact ⟨rfl, rfl⟩
        all_goals simp [hdeps] at hmissing
  | none =>
      by_cases hopen : name ∈ c.resolving
      · simp only [hopen, ↓reduceIte, bind_eq_ok_iff, record_run, markRecursive_run,
          pure_eq_ok_iff]
        constructor
        · rintro ⟨_, _, ⟨⟩, _, _, ⟨⟩, rfl, rfl⟩
          exact .reentered hdeps hopen
        · rintro (hfound | - | ⟨-, hfresh, -, -⟩ | ⟨-, hfresh, -, -⟩)
          · simp [hdeps] at hfound
          · exact ⟨_, _, rfl, _, _, rfl, rfl, rfl⟩
          all_goals exact absurd hopen hfresh
      · simp only [hopen, ↓reduceIte, bind_eq_ok_iff, within_eq_ok_iff, get_bind]
        constructor
        · rintro ⟨result, _, ⟨after, hrun, rfl⟩, hrest⟩
          by_cases hkept : mode = .share ∨ name ∈ after.recursive
          · simp only [Context.leave_recursive, hkept, ↓reduceIte, bind_eq_ok_iff, record_run,
              define_run, pure_eq_ok_iff] at hrest
            obtain ⟨_, _, ⟨⟩, _, _, ⟨⟩, rfl, rfl⟩ := hrest
            exact .recorded hdeps hopen hrun hkept
          · simp only [Context.leave_recursive, hkept, ↓reduceIte, pure_eq_ok_iff] at hrest
            obtain ⟨rfl, rfl⟩ := hrest
            exact .inlined hdeps hopen hrun hkept
        · rintro (hfound | ⟨-, hentered⟩ | ⟨-, -, hrun, hkept⟩ | ⟨-, -, hrun, hdropped⟩)
          · simp [hdeps] at hfound
          · exact absurd hentered hopen
          · refine ⟨_, _, ⟨_, hrun, rfl⟩, ?_⟩
            simp only [Context.leave_recursive, hkept, ↓reduceIte, bind_eq_ok_iff, record_run,
              define_run, pure_eq_ok_iff]
            exact ⟨_, _, rfl, _, _, rfl, rfl, rfl⟩
          · refine ⟨_, _, ⟨_, hrun, rfl⟩, ?_⟩
            simp only [Context.leave_recursive, hdropped, ↓reduceIte, pure_eq_ok_iff]
            exact ⟨trivial, trivial⟩

theorem reference_eq_ok_iff {type : TypeExpr} {name : String} {arguments : List TypeExpr}
    {schema : Schema} :
    reference env policy body type name arguments c = .ok schema c' ↔
      ReferenceRule env policy (Gives body) name arguments c schema c' := by
  unfold reference
  cases hfound : env.declarations name with
  | nil =>
      constructor
      · simp [bind_eq_ok_iff]
      · rintro (⟨hmember, -, -⟩ | ⟨hfirst, -, -⟩)
        · simp [hfound] at hmember
        · simp [hfound] at hfirst
  | cons first others =>
      simp only [bind_eq_ok_iff, record_run]
      constructor
      · rintro ⟨_, _, ⟨⟩, _, _, ⟨⟩, hrest⟩
        rw [← hfound] at hrest
        cases first with
        | enumMember member =>
            obtain ⟨hvalue, hends⟩ := enumMember_eq_ok_iff.mp hrest
            exact .member hfound hvalue hends
        | enum _ _ _ | interface _ _ _ _ =>
            exact .definition hfound rfl (named_eq_ok_iff.mp hrest)
        | typeAlias _ _ _ =>
            by_cases haliases : policy.aliases
            · simp only [haliases, ↓reduceIte] at hrest
              exact .definition hfound haliases (named_eq_ok_iff.mp hrest)
            · simp [haliases] at hrest
        | other _ _ _ | foreign _ _ _ => simp at hrest
      · rw [← hfound]
        rintro (⟨hmember, hvalue, hends⟩ | ⟨hfirst, hfollowed, hnamed⟩)
        · obtain ⟨rfl, -⟩ := List.cons.inj (hfound.symm.trans hmember)
          exact ⟨_, _, rfl, _, _, rfl, enumMember_eq_ok_iff.mpr ⟨hvalue, hends⟩⟩
        · obtain ⟨rfl, -⟩ := List.cons.inj (hfound.symm.trans hfirst)
          refine ⟨_, _, rfl, _, _, rfl, ?_⟩
          cases first with
          | enum _ _ _ | interface _ _ _ _ => exact named_eq_ok_iff.mpr hnamed
          | typeAlias _ _ _ =>
              have haliases : policy.aliases = true := hfollowed
              simp only [haliases, ↓reduceIte]
              exact named_eq_ok_iff.mpr hnamed
          | enumMember _ | other _ _ _ | foreign _ _ _ => simp [Declaration.isFollowed] at hfollowed

theorem step_eq_ok_iff {type : TypeExpr} {schema : Schema} :
    step env policy resolve body type c = .ok schema c' ↔
      TypeRule env policy (Gives resolve) (Gives body) type c schema c' := by
  constructor
  · intro h
    cases type with
    | keyword location word =>
        obtain ⟨hmeaning, rfl⟩ := keyword_eq_ok_iff.mp h
        exact .keyword hmeaning
    | literal location expression =>
        obtain ⟨hmeaning, rfl⟩ := literal_eq_ok_iff.mp h
        exact .literal hmeaning
    | array location element =>
        simp only [step, bind_eq_ok_iff, pure_eq_ok_iff] at h
        obtain ⟨_, _, hinner, rfl, rfl⟩ := h
        exact .array hinner
    | union location parts =>
        simp only [step, bind_eq_ok_iff, pure_eq_ok_iff, mapM_eq_ok_iff] at h
        obtain ⟨_, _, hinner, rfl, rfl⟩ := h
        exact .union hinner
    | intersection location parts =>
        simp only [step, bind_eq_ok_iff, pure_eq_ok_iff, mapM_eq_ok_iff] at h
        obtain ⟨_, _, hinner, rfl, rfl⟩ := h
        exact .intersection hinner
    | parenthesized location inner => exact .parenthesized h
    | tuple location elements =>
        simp only [step, bind_eq_ok_iff, pure_eq_ok_iff, mapM_eq_ok_iff] at h
        obtain ⟨_, _, hinner, rfl, rfl⟩ := h
        exact .tuple hinner
    | object location members =>
        simp only [step, bind_eq_ok_iff, pure_eq_ok_iff, members_eq_ok_iff] at h
        obtain ⟨_, _, hinner, rfl, rfl⟩ := h
        exact .object hinner
    | reference location name arguments => exact .reference (reference_eq_ok_iff.mp h)
    | unsupported _ _ | foreign _ _ => simp [step] at h
  · intro h
    cases h with
    | keyword hmeaning => exact keyword_eq_ok_iff.mpr ⟨hmeaning, rfl⟩
    | literal hmeaning => exact literal_eq_ok_iff.mpr ⟨hmeaning, rfl⟩
    | array hinner =>
        simp only [step, bind_eq_ok_iff, pure_eq_ok_iff]
        exact ⟨_, _, hinner, rfl, rfl⟩
    | union hinner | intersection hinner | tuple hinner =>
        simp only [step, bind_eq_ok_iff, pure_eq_ok_iff, mapM_eq_ok_iff]
        exact ⟨_, _, hinner, rfl, rfl⟩
    | parenthesized hinner => exact hinner
    | object hinner =>
        simp only [step, bind_eq_ok_iff, pure_eq_ok_iff, members_eq_ok_iff]
        exact ⟨_, _, hinner, rfl, rfl⟩
    | reference hinner => exact reference_eq_ok_iff.mpr hinner

end Success

/-! ### What the rules keep -/

section Induction

variable {env : Environment} {policy : Policy} {R R' : Account TypeExpr Schema}
  {B B' : Account Declaration Schema} {c c' : Context} {schema : Schema}

theorem Sequence.mono {α β : Type} {R R' : Account α β} (hR : ∀ x c y c', R x c y c' → R' x c y c')
    {xs : List α} {ys : List β} (h : Sequence R xs c ys c') : Sequence R' xs c ys c' := by
  induction h with
  | nil => exact .nil
  | cons head _ ih => exact .cons (hR _ _ _ _ head) ih

theorem MemberRule.mono (hR : ∀ type c schema c', R type c schema c' → R' type c schema c')
    {seen : List String} {members : List Member} {schemas : List Schema}
    (h : MemberRule R seen members c schemas c') : MemberRule R' seen members c schemas c' := by
  induction h with
  | nil => exact .nil
  | cons plain head fresh _ ih => exact .cons plain (hR _ _ _ _ head) fresh ih

theorem BodyRule.mono (hR : ∀ type c schema c', R type c schema c' → R' type c schema c')
    {declaration : Declaration} (h : BodyRule env R declaration c schema c') :
    BodyRule env R' declaration c schema c' := by
  cases h with
  | enum values => exact .enum values
  | interface contents => exact .interface (contents.mono hR)
  | typeAlias aliased => exact .typeAlias (hR _ _ _ _ aliased)

theorem NamedRule.mono {mode : ReferenceMode} {name : String}
    {run run' : Context → Schema → Context → Prop}
    (hrun : ∀ c schema c', run c schema c' → run' c schema c')
    (h : NamedRule mode name run c schema c') : NamedRule mode name run' c schema c' := by
  cases h with
  | finished found => exact .finished found
  | reentered missing entered => exact .reentered missing entered
  | recorded missing fresh resolved kept => exact .recorded missing fresh (hrun _ _ _ resolved) kept
  | inlined missing fresh resolved dropped =>
      exact .inlined missing fresh (hrun _ _ _ resolved) dropped

theorem ReferenceRule.mono (hB : ∀ d c schema c', B d c schema c' → B' d c schema c')
    {name : String} {arguments : List TypeExpr}
    (h : ReferenceRule env policy B name arguments c schema c') :
    ReferenceRule env policy B' name arguments c schema c' := by
  cases h with
  | member found value ends => exact .member found value ends
  | definition found followed named => exact .definition found followed (named.mono (hB _))

theorem TypeRule.mono (hR : ∀ type c schema c', R type c schema c' → R' type c schema c')
    (hB : ∀ d c schema c', B d c schema c' → B' d c schema c')
    {type : TypeExpr} (h : TypeRule env policy R B type c schema c') :
    TypeRule env policy R' B' type c schema c' := by
  cases h with
  | keyword meaning => exact .keyword meaning
  | literal meaning => exact .literal meaning
  | array inner => exact .array (hR _ _ _ _ inner)
  | union inner => exact .union (inner.mono hR)
  | intersection inner => exact .intersection (inner.mono hR)
  | parenthesized inner => exact .parenthesized (hR _ _ _ _ inner)
  | tuple inner => exact .tuple (inner.mono hR)
  | object inner => exact .object (inner.mono hR)
  | reference inner => exact .reference (inner.mono hB)

theorem typeWithin_zero_ne_ok {type : TypeExpr} :
    typeWithin env policy 0 type c ≠ .ok schema c' := by
  simp [typeWithin]

theorem typeWithin_succ_eq_ok_iff {budget : Nat} {type : TypeExpr} :
    typeWithin env policy (budget + 1) type c = .ok schema c' ↔
      TypeRule env policy (Gives (typeWithin env policy budget))
        (BodyRule env (Gives (typeWithin env policy budget))) type c schema c' := by
  rw [typeWithin, step_eq_ok_iff]
  exact ⟨TypeRule.mono (fun _ _ _ _ => id) fun _ _ _ _ => declaration_eq_ok_iff.mp,
    TypeRule.mono (fun _ _ _ _ => id) fun _ _ _ _ => declaration_eq_ok_iff.mpr⟩

/-- **Rule induction.** What the rules keep holds of every successful resolution. -/
theorem rule_induction {P : Account TypeExpr Schema}
    (keeps : ∀ type c schema c', TypeRule env policy P (BodyRule env P) type c schema c' →
      P type c schema c')
    {budget : Nat} {type : TypeExpr} (h : typeWithin env policy budget type c = .ok schema c') :
    P type c schema c' := by
  induction budget generalizing type c schema c' with
  | zero => exact absurd h typeWithin_zero_ne_ok
  | succ budget ih =>
      refine keeps _ _ _ _ (TypeRule.mono ?_ ?_ (typeWithin_succ_eq_ok_iff.mp h))
      · exact fun _ _ _ _ hrun => ih hrun
      · exact fun _ _ _ _ => BodyRule.mono fun _ _ _ _ hrun => ih hrun

end Induction

end Resolve

/-- A type expression has a model exactly when its resolution from the empty state succeeds. -/
theorem resolveWithin_eq_ok_iff {budget : Nat} {env : Environment} {policy : Policy}
    {type : TypeExpr} {model : Model} :
    (resolveWithin budget env policy type).1 = .ok model ↔
      ∃ context, Resolve.typeWithin env policy budget type {} = .ok model.root context ∧
        context.deps = model.deps := by
  obtain ⟨root, deps⟩ := model
  cases h : Resolve.typeWithin env policy budget type {} with
  | error interruption context => simp [resolveWithin, h]
  | ok result context => simp [resolveWithin, h, and_assoc]

end TypeSchema
