import TypeSchema.Proofs.Failure.Modes

/-!
# Supported source

Which constructs have a schema can be told from each of them alone: a keyword by itself, a literal
by its text, a body by the shape and the names of its members, a reference by the first declaration
of its name, an enum by the values that the table has recorded. A node is refused exactly when it is
not supported, so a resolution succeeds exactly when everything that it reaches is supported.
-/

namespace TypeSchema

/-- Every keyword but three has a schema. -/
def Keyword.isSupported : Keyword → Bool
  | .object | .symbol | .never => false
  | _ => true

/-- Numbers and bigints have to be numerals of their kind. -/
def Literal.isSupported (expression : Literal) : Bool :=
  match expression.kind with
  | .null | .trueLiteral | .falseLiteral | .string => true
  | .numeric => (NumericLiteral.read expression.text).toOption.isSome
  | .bigInt => (NumericLiteral.readBigInt expression.text).toOption.isSome
  | _ => false

def PropertyName.isPlain (name : PropertyName) : Bool :=
  match name.kind with
  | .identifier | .string | .numeric => true
  | .computed | .privateName | .foreign _ => false

/-- Only properties with a type and a plain name can stand in a body. -/
def Member.isSupported : Member → Bool
  | .property _ name (some _) _ => name.isPlain
  | _ => false

/-- The members of a body are supported, and no two of them have the same name. -/
def Member.areSupported (members : List Member) : Bool :=
  members.all Member.isSupported && (members.map Member.name?).Nodup

/-- The value that the table has for the member is a text or number literal. -/
def EnumMember.isSupported (table : DeclarationTable) (member : EnumMember) : Bool :=
  member.memberName.isPlain && ((table.evaluateMember member).flags.contains .stringLiteral ||
    (table.evaluateMember member).flags.contains .numberLiteral)

/-- References may go to enum members with a value and to whatever they go on into. -/
def Declaration.isReferable (table : DeclarationTable) (aliases : Bool) : Declaration → Bool
  | .enumMember member => member.isSupported table
  | declaration => declaration.isFollowed aliases

/-- Whether a node is supported by itself, whatever the nodes below it are. -/
def Node.isSupported (table : DeclarationTable) (aliases : Bool) : Node → Bool
  | .type (.keyword _ word) => word.isSupported
  | .type (.literal _ expression) => expression.isSupported
  | .type (.object _ members) => Member.areSupported members
  | .type (.reference _ target _) =>
    (table.declarations target).head?.any (Declaration.isReferable table aliases)
  | .type (.unsupported _ _) | .type (.foreign _ _) => false
  | .declaration (.enum _ _ members) => members.all (EnumMember.isSupported table)
  | .declaration (.interface _ _ members _) => Member.areSupported members
  | _ => true

/-! ### A node is refused when it is not supported -/

theorem Keyword.isSupported_iff {word : Keyword} : word.isSupported ↔ word.schema? ≠ none := by
  cases word <;> simp [isSupported, schema?]

theorem PropertyName.isPlain_iff {name : PropertyName} :
    name.isPlain ↔ ∀ failure, name.plain ≠ .error failure := by
  cases hkind : name.kind <;> simp [isPlain, plain, hkind]

theorem Evaluated.literalSchema?_ne_none_iff {evaluated : Evaluated} :
    evaluated.literalSchema? ≠ none ↔
      evaluated.flags.contains .stringLiteral || evaluated.flags.contains .numberLiteral := by
  unfold literalSchema?
  by_cases htext : TypeFlag.stringLiteral ∈ evaluated.flags
  · simp [htext]
  · by_cases hnumber : TypeFlag.numberLiteral ∈ evaluated.flags
    · simp [htext, hnumber]
    · simp [htext, hnumber]

theorem EnumMember.isSupported_iff {table : DeclarationTable} {member : EnumMember} :
    member.isSupported table ↔ ∀ failure, ¬ member.Refused (.ofTable table) failure := by
  rw [isSupported, Bool.and_eq_true, PropertyName.isPlain_iff,
    ← Evaluated.literalSchema?_ne_none_iff]
  constructor
  · rintro ⟨hname, hvalue⟩ failure hrefused
    cases hrefused with
    | name nameless => exact hname failure nameless
    | value valueless => exact hvalue valueless
  · intro h
    exact ⟨fun failure nameless => h failure (.name nameless),
      fun valueless => h _ (.value valueless)⟩

/-- A literal whose text evaluates has a schema; the value of a bigint literal is an integer. -/
theorem Literal.literalSchema?_of_isSupported (table : DeclarationTable) {expression : Literal}
    (h : expression.isSupported) :
    ∃ schema, (Environment.ofTable table).literalSchema? expression = some schema := by
  cases hkind : expression.kind <;> simp only [isSupported, hkind, Bool.false_eq_true] at h
  case numeric =>
    cases hread : NumericLiteral.read expression.text with
    | error problem => simp [hread, Except.toOption] at h
    | ok n =>
        simp [Environment.literalSchema?, Environment.ofTable, Environment.evaluate, evaluate?,
          hkind, hread, Except.toOption, Evaluated.literalSchema?]
  case bigInt =>
    cases hread : NumericLiteral.readBigInt expression.text with
    | error problem => simp [hread, Except.toOption] at h
    | ok n =>
        simp [Environment.literalSchema?, Environment.ofTable, Environment.evaluate, evaluate?,
          hkind, hread, Except.toOption, Json.toInteger]
  all_goals simp [Environment.literalSchema?, Environment.ofTable, Environment.evaluate, evaluate?,
    hkind, Except.toOption, Evaluated.literalSchema?]

theorem Literal.isSupported_iff {table : DeclarationTable} {expression : Literal} {node : Node} :
    expression.isSupported ↔ ∀ fault, ¬ expression.Refused (.ofTable table) node fault := by
  constructor
  · intro h fault
    obtain ⟨schema, hschema⟩ := literalSchema?_of_isSupported table h
    exact Resolve.not_refused_of_literalSchema? hschema
  · intro h
    have hunread : ∀ failure, expression.kind ∈ [.string, .numeric, .bigInt] →
        (Environment.ofTable table).evaluateLiteral expression ≠ .error failure :=
      fun failure kind unread => h _ (.unread kind unread)
    cases hkind : expression.kind with
    | null | trueLiteral | falseLiteral | string => simp [isSupported, hkind]
    | numeric =>
        cases hread : (NumericLiteral.read expression.text).toOption with
        | some n => simp [isSupported, hkind, hread]
        | none =>
            simp [Environment.ofTable, Environment.evaluate, evaluate?, hkind, hread] at hunread
    | bigInt =>
        cases hread : (NumericLiteral.readBigInt expression.text).toOption with
        | some n => simp [isSupported, hkind, hread]
        | none =>
            simp [Environment.ofTable, Environment.evaluate, evaluate?, hkind, hread] at hunread
    | _ => exact absurd (.unsupported (by simp [hkind])) (h _)

theorem Member.isSupported_iff {member : Member} :
    member.isSupported ↔ ∀ failure, ¬ member.Refused failure := by
  constructor
  · intro h failure hrefused
    cases hrefused with
    | name nameless => exact PropertyName.isPlain_iff.mp h failure nameless
    | _ => simp [isSupported] at h
  · intro h
    cases member with
    | property location name type optional =>
        cases type with
        | none => exact absurd .untypedProperty (h _)
        | some type =>
            exact PropertyName.isPlain_iff.mpr fun failure nameless => h failure (.name nameless)
    | index location parameter key type =>
        cases type with
        | none => exact absurd .untypedIndex (h _)
        | some type => exact absurd .index (h _)
    | other location kind name => exact absurd .other (h _)
    | foreign location word => exact absurd .foreign (h _)

theorem Member.exists_name_of_isSupported {member : Member} (h : member.isSupported) :
    ∃ name, member.name? = some name := by
  cases member with
  | property location name type optional =>
      cases type with
      | none => cases h
      | some type =>
          cases hplain : name.plain with
          | ok text => exact ⟨text, by simp [name?, hplain, Except.toOption]⟩
          | error failure => exact absurd hplain (PropertyName.isPlain_iff.mp h failure)
  | _ => cases h

theorem Member.areSupported_iff {members : List Member} :
    Member.areSupported members ↔ ∀ failure, ¬ Member.RefusedAmong members failure := by
  simp only [areSupported, Bool.and_eq_true, List.all_eq_true, decide_eq_true_eq]
  constructor
  · rintro ⟨hsupported, hnames⟩ failure hrefused
    cases hrefused with
    | member mem refused => exact isSupported_iff.mp (hsupported _ mem) _ refused
    | duplicate twice before again =>
        have hsublist := twice.map Member.name?
        simp only [List.map_cons, before, again, List.map_nil] at hsublist
        exact List.nodup_iff_sublist.mp hnames _ hsublist
  · intro h
    have hsupported : ∀ member ∈ members, member.isSupported := fun member mem =>
      isSupported_iff.mpr fun failure hrefused => h failure (.member mem hrefused)
    refine ⟨hsupported, List.nodup_iff_sublist.mpr ?_⟩
    intro name? hsublist
    obtain ⟨pair, hpair, hmap⟩ := List.sublist_map_iff.mp hsublist
    obtain ⟨earlier, rest, rfl, hbefore, hrest⟩ := List.map_eq_cons_iff.mp hmap.symm
    obtain ⟨later, last, rfl, hagain, hlast⟩ := List.map_eq_cons_iff.mp hrest
    obtain rfl := List.map_eq_nil_iff.mp hlast
    obtain ⟨name, hname⟩ := exists_name_of_isSupported
      (hsupported earlier (hpair.subset List.mem_cons_self))
    exact h _ (.duplicate hpair hname (hagain.trans (hbefore.symm.trans hname)))

namespace Node

variable {table : DeclarationTable} {aliases : Bool} {node : Node} {fault : Fault}

theorem not_refused_of_isSupported (h : node.isSupported table aliases) :
    ¬ node.Refused (.ofTable table) aliases fault := by
  intro hrefused
  cases hrefused with
  | keyword meaningless => exact Keyword.isSupported_iff.mp h meaningless
  | literal refused => exact Literal.isSupported_iff.mp h _ refused
  | object refused | interface refused => exact Member.areSupported_iff.mp h _ refused
  | unresolved missing =>
      have hnone : table.declarations _ = [] := missing
      simp [isSupported, hnone] at h
  | @unfollowed _ _ _ first _ found stops large =>
      have hfound : table.declarations _ = _ := found
      simp only [isSupported, hfound, List.head?_cons, Option.any_some] at h
      cases first with
      | enumMember member => exact large member rfl
      | _ => exact absurd h (by simp [Declaration.isReferable, stops])
  | enumMember found refused =>
      have hfound : table.declarations _ = _ := found
      simp only [isSupported, hfound, List.head?_cons, Option.any_some] at h
      exact EnumMember.isSupported_iff.mp h _ refused
  | unsupported | foreign => cases h
  | enum mem refused =>
      exact EnumMember.isSupported_iff.mp (List.all_eq_true.mp h _ mem) _ refused

theorem isSupported_reference {location : Option Location} {target : String}
    {arguments : List TypeExpr}
    (h : ∀ fault, ¬ Refused (.ofTable table) aliases (.type (.reference location target arguments))
      fault) :
    isSupported table aliases (.type (.reference location target arguments)) := by
  cases hfound : table.declarations target with
  | nil => exact absurd (.unresolved hfound) (h _)
  | cons first others =>
      simp only [isSupported, hfound, List.head?_cons, Option.any_some]
      cases first with
      | enumMember member =>
          exact EnumMember.isSupported_iff.mpr fun failure refused =>
            h _ (.enumMember hfound refused)
      | enum _ _ _ | interface _ _ _ _ => rfl
      | typeAlias _ _ _ =>
          cases aliases with
          | true => rfl
          | false => exact absurd (.unfollowed hfound rfl (by simp)) (h _)
      | other _ _ _ | foreign _ _ _ => exact absurd (.unfollowed hfound rfl (by simp)) (h _)

theorem isSupported_of_not_refused (h : ∀ fault, ¬ node.Refused (.ofTable table) aliases fault) :
    node.isSupported table aliases := by
  cases node with
  | type type =>
      cases type with
      | keyword location word =>
          exact Keyword.isSupported_iff.mpr fun meaningless => h _ (.keyword meaningless)
      | literal location expression =>
          exact Literal.isSupported_iff.mpr fun fault refused => h fault (.literal refused)
      | object location members =>
          exact Member.areSupported_iff.mpr fun failure refused => h _ (.object refused)
      | reference location target arguments => exact isSupported_reference h
      | unsupported location kind => exact absurd .unsupported (h _)
      | foreign location word => exact absurd .foreign (h _)
      | _ => rfl
  | declaration declaration =>
      cases declaration with
      | enum location text members =>
          exact List.all_eq_true.mpr fun member mem =>
            EnumMember.isSupported_iff.mpr fun failure refused => h _ (.enum mem refused)
      | interface location text members bases =>
          exact Member.areSupported_iff.mpr fun failure refused => h _ (.interface refused)
      | _ => rfl
  | _ => rfl

/-- **A node is refused exactly when it is not supported.** -/
theorem isSupported_iff :
    node.isSupported table aliases ↔ ∀ fault, ¬ node.Refused (.ofTable table) aliases fault :=
  ⟨fun h _ => not_refused_of_isSupported h, isSupported_of_not_refused⟩

end Node

/-- What the bigint literals of a table evaluate to stands for an integer, so every fault is a
failure. -/
theorem Literal.Refused.exists_failure {table : DeclarationTable} {expression : Literal}
    {node : Node} {fault : Fault} (h : expression.Refused (.ofTable table) node fault) :
    ∃ failure, fault = .failure failure := by
  cases h with
  | @notInteger evaluated problem kind read flagged broken =>
      cases hread : NumericLiteral.readBigInt expression.text with
      | error reason =>
          simp [Environment.ofTable, Environment.evaluate, evaluate?, kind, hread, Except.toOption]
            at read
      | ok n =>
          have hvalue : evaluated = ⟨[.bigIntLiteral], .number (.integer n)⟩ := by
            simpa [Environment.ofTable, Environment.evaluate, evaluate?, kind, hread,
              Except.toOption, eq_comm] using read
          simp [hvalue, Json.toInteger] at broken
  | _ => exact ⟨_, rfl⟩

theorem Node.Refused.exists_failure {table : DeclarationTable} {aliases : Bool} {node : Node}
    {fault : Fault} (h : node.Refused (.ofTable table) aliases fault) :
    ∃ failure, fault = .failure failure := by
  cases h with
  | literal refused => exact refused.exists_failure
  | _ => exact ⟨_, rfl⟩

/-! ### Success -/

section Success

open Resolve

variable {declarations : List Declaration} {policy : Policy} {type : TypeExpr} {budget : Nat}

end Success

end TypeSchema
