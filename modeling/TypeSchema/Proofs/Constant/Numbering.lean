import TypeSchema.Proofs.Failure.Origin
import TypeSchema.Proofs.Resolution.Locality

/-!
# Numbered enum members

The members of an enum are evaluated in order, each from its initializer or from the member before
it. So the value of a member without an initializer is settled by the nearest one before it that has
one: a number is counted on from there, one for each member in between, and from a text or from
something that is not constant there is nothing to count on from. Without any initializer before
it, a member is counted from zero. In a table where no member is registered twice these are the
values that references find, whether they go to the enum or to one of its members.
-/

namespace TypeSchema

/-! ### The members of one enum -/

namespace Evaluated

variable {previous : Option Evaluated} {members : List EnumMember} {member next : EnumMember}
  {evaluated : Evaluated} {literal : Literal} {v : Int} {i j k : Nat}

theorem getElem?_ofMembers_zero (previous : Option Evaluated) (members : List EnumMember) :
    (ofMembers previous members)[0]? =
      members[0]?.map fun first => (first, ofMember previous first) := by
  cases members <;> rfl

/-- Every later member is evaluated from the one before it. -/
theorem getElem?_ofMembers_succ (h : (ofMembers previous members)[i]? = some (member, evaluated))
    (hnext : members[i + 1]? = some next) :
    (ofMembers previous members)[i + 1]? = some (next, ofMember (some evaluated) next) := by
  induction members generalizing previous i with
  | nil => cases hnext
  | cons first rest ih =>
      rw [ofMembers] at h ⊢
      rw [List.getElem?_cons_succ] at hnext ⊢
      cases i with
      | zero =>
          obtain ⟨-, rfl⟩ := Prod.mk.inj (Option.some.inj h)
          rw [getElem?_ofMembers_zero, hnext, Option.map_some]
      | succ i => exact ih h hnext

theorem exists_getElem?_ofMembers (previous : Option Evaluated) (h : members[i]? = some member) :
    ∃ before, (ofMembers previous members)[i]? = some (member, ofMember before member) := by
  induction i generalizing member with
  | zero =>
      rw [getElem?_ofMembers_zero, h]
      exact ⟨previous, rfl⟩
  | succ i ih =>
      have hlt : i < members.length := by
        have := (List.getElem?_eq_some_iff.mp h).1
        omega
      obtain ⟨before, hbefore⟩ := ih (List.getElem?_eq_getElem hlt)
      exact ⟨_, getElem?_ofMembers_succ hbefore h⟩

theorem getElem?_ofMembers_initialized (previous : Option Evaluated)
    (h : members[i]? = some member) (hinitializer : member.initializer = some literal) :
    (ofMembers previous members)[i]? = some (member, literal.evaluateConstant) := by
  obtain ⟨before, hbefore⟩ := exists_getElem?_ofMembers previous h
  rw [hbefore, ofMember, hinitializer]
  rfl

/-- None of the members from one index to another has an initializer. -/
def Uninitialized (members : List EnumMember) (first last : Nat) : Prop :=
  ∀ index member, first ≤ index → index ≤ last → members[index]? = some member →
    member.initializer = none

/-- Without an initializer a member is evaluated from the one before it. -/
theorem getElem?_ofMembers_following
    (h : (ofMembers previous members)[j + k]? = some (member, evaluated))
    (hnext : members[j + (k + 1)]? = some next)
    (hplain : Uninitialized members (j + 1) (j + (k + 1))) :
    (ofMembers previous members)[j + (k + 1)]? = some (next, following (some evaluated)) := by
  rw [← Nat.add_assoc] at hnext hplain ⊢
  rw [getElem?_ofMembers_succ h hnext, ofMember,
    hplain (j + k + 1) next (by omega) (by omega) hnext]
  rfl

theorem exists_getElem?_lt (h : members[j + k]? = some member) (i : Nat) (hle : i ≤ j + k) :
    ∃ other, members[i]? = some other := by
  have hlt := (List.getElem?_eq_some_iff.mp h).1
  exact ⟨_, List.getElem?_eq_getElem (by omega)⟩

theorem getElem?_ofMembers_fst (h : (ofMembers previous members)[i]? = some (member, evaluated)) :
    members[i]? = some member := by
  have hfirst := congrArg (Option.map Prod.fst) h
  rwa [← List.getElem?_map, DeclarationTable.map_fst_ofMembers] at hfirst

/-- An integer is counted on from. -/
theorem getElem?_ofMembers_counted
    (h : (ofMembers previous members)[j]? = some (member, enumNumber (.integer v)))
    (hnext : members[j + k]? = some next) (hplain : Uninitialized members (j + 1) (j + k)) :
    (ofMembers previous members)[j + k]? = some (next, enumNumber (.integer (v + k))) := by
  induction k generalizing next with
  | zero =>
      obtain rfl := Option.some.inj ((getElem?_ofMembers_fst h).symm.trans hnext)
      rwa [Int.natCast_zero, Int.add_zero]
  | succ k ih =>
      obtain ⟨before, hbefore⟩ := exists_getElem?_lt hnext (j + k) (by omega)
      have hcounted := ih hbefore fun index other hlow hhigh =>
        hplain index other hlow (by omega)
      rw [getElem?_ofMembers_following hcounted hnext hplain, Int.natCast_succ, ← Int.add_assoc]
      rfl

/-- Without an initializer at the front, members are counted from zero. -/
theorem getElem?_ofMembers_leading (h : members[i]? = some member)
    (hplain : Uninitialized members 0 i) :
    (ofMembers none members)[i]? = some (member, enumNumber (.integer i)) := by
  rw [← Nat.zero_add i] at h
  obtain ⟨first, hfirst⟩ := exists_getElem?_lt h 0 (by omega)
  have hzero : (ofMembers none members)[0]? = some (first, enumNumber (.integer 0)) := by
    rw [getElem?_ofMembers_zero, hfirst, Option.map_some, ofMember,
      hplain 0 first (by omega) (by omega) hfirst]
    rfl
  have hcounted := getElem?_ofMembers_counted hzero h fun index other _ hhigh =>
    hplain index other (by omega) (by omega)
  rwa [Nat.zero_add, Int.zero_add] at hcounted

/-- From what is no number there is nothing to count on from. -/
theorem getElem?_ofMembers_uncounted
    (h : (ofMembers previous members)[j]? = some (member, evaluated))
    (hstops : following (some evaluated) = computedNumber)
    (hnext : members[j + (k + 1)]? = some next)
    (hplain : Uninitialized members (j + 1) (j + (k + 1))) :
    (ofMembers previous members)[j + (k + 1)]? = some (next, computedNumber) := by
  induction k generalizing next with
  | zero => rw [getElem?_ofMembers_following h hnext hplain, hstops]
  | succ k ih =>
      obtain ⟨before, hbefore⟩ := exists_getElem?_lt hnext (j + (k + 1)) (by omega)
      have hcomputed := ih hbefore fun index other hlow hhigh =>
        hplain index other hlow (by omega)
      rw [getElem?_ofMembers_following hcomputed hnext hplain]
      rfl

theorem evaluateConstant_cases (literal : Literal) :
    (∃ s, literal.evaluateConstant = enumText s) ∨ (∃ n, literal.evaluateConstant = enumNumber n) ∨
      literal.evaluateConstant = computedNumber := by
  have hnumber : (∃ n, literal.constantNumber?.elim computedNumber enumNumber = enumNumber n) ∨
      literal.constantNumber?.elim computedNumber enumNumber = computedNumber := by
    cases literal.constantNumber? with
    | none => exact .inr rfl
    | some n => exact .inl ⟨n, rfl⟩
  unfold Literal.evaluateConstant
  split
  · exact .inl ⟨_, rfl⟩
  · exact .inl ⟨_, rfl⟩
  · exact .inr hnumber

theorem following_evaluateConstant
    (h : ∀ number, literal.evaluateConstant ≠ enumNumber number) :
    following (some literal.evaluateConstant) = computedNumber := by
  obtain ⟨s, hs⟩ | ⟨n, hn⟩ | hcomputed := evaluateConstant_cases literal
  · rw [hs]
    rfl
  · exact absurd hn (h n)
  · rw [hcomputed]
    rfl

end Evaluated

/-! ### Values in the table -/

namespace DeclarationTable

variable {declarations : List Declaration} {location : Option Location} {name : String}
  {members : List EnumMember} {member : EnumMember} {evaluated : Evaluated} {i : Nat}

/-- The qualified names under which enum members are registered. -/
def memberNames (declarations : List Declaration) : List String :=
  declarations.flatMap fun declaration => declaration.enumMembers.map EnumMember.qualifiedName

theorem map_fst_values_sublist (declarations : List Declaration) :
    ((declarations.flatMap valuesOf).map Prod.fst).Sublist (memberNames declarations) := by
  rw [List.map_flatMap, memberNames]
  refine List.Sublist.flatMap_right declarations fun source _ => ?_
  cases source with
  | enum location name members => rw [map_fst_valuesOf_enum, Declaration.enumMembers]
  | _ => exact List.nil_sublist _

/-- Where no member is registered twice, an enum's members keep the values that its declaration
gives them. -/
theorem evaluateMember_eq (distinct : (memberNames declarations).Nodup)
    (registered : .enum location name members ∈ declarations)
    (h : (Evaluated.ofMembers none members)[i]? = some (member, evaluated)) :
    (ofList declarations).evaluateMember member = evaluated := by
  have hvalue : (ofList declarations).value? member.qualifiedName = some evaluated :=
    (value?_eq_some_iff_of_nodup (distinct.sublist (map_fst_values_sublist declarations))).mpr
      ⟨_, registered, List.mem_map.mpr ⟨_, List.mem_of_getElem? h, rfl⟩⟩
  rw [evaluateMember, hvalue]
  rfl

/-- How the members of an enum are evaluated: from their initializers, and without one by counting
on from the nearest member before that has one, or from zero. -/
structure Numbers (table : DeclarationTable) (members : List EnumMember) : Prop where
  initialized : ∀ (i : Nat) (member : EnumMember) (literal : Literal),
    members[i]? = some member → member.initializer = some literal →
      table.evaluateMember member = literal.evaluateConstant
  leading : ∀ (i : Nat) (member : EnumMember),
    members[i]? = some member → Evaluated.Uninitialized members 0 i →
      table.evaluateMember member = .enumNumber (.integer i)
  counted : ∀ (i j : Nat) (member last : EnumMember) (v : Int), j < i →
    members[i]? = some member → members[j]? = some last → last.initializer ≠ none →
      Evaluated.Uninitialized members (j + 1) i →
        table.evaluateMember last = .enumNumber (.integer v) →
          table.evaluateMember member = .enumNumber (.integer (v + (i - j)))
  uncounted : ∀ (i j : Nat) (member last : EnumMember), j < i →
    members[i]? = some member → members[j]? = some last → last.initializer ≠ none →
      Evaluated.Uninitialized members (j + 1) i →
        (∀ number, table.evaluateMember last ≠ .enumNumber number) →
          table.evaluateMember member = .computedNumber

theorem numbers (distinct : (memberNames declarations).Nodup)
    (registered : .enum location name members ∈ declarations) :
    (ofList declarations).Numbers members := by
  have hvalue : ∀ {i : Nat} {member : EnumMember} {evaluated : Evaluated},
      (Evaluated.ofMembers none members)[i]? = some (member, evaluated) →
        (ofList declarations).evaluateMember member = evaluated :=
    fun h => evaluateMember_eq distinct registered h
  -- the nearest initialized member before another one, with the value of its initializer
  have hlast : ∀ {j : Nat} {last : EnumMember}, members[j]? = some last →
      last.initializer ≠ none → ∃ literal : Literal, (Evaluated.ofMembers none members)[j]? =
        some (last, literal.evaluateConstant) := by
    intro j last hlast hinitializer
    obtain ⟨literal, hliteral⟩ := Option.ne_none_iff_exists'.mp hinitializer
    exact ⟨literal, Evaluated.getElem?_ofMembers_initialized none hlast hliteral⟩
  refine ⟨?_, ?_, ?_, ?_⟩
  · intro i member literal hmember hinitializer
    exact hvalue (Evaluated.getElem?_ofMembers_initialized none hmember hinitializer)
  · intro i member hmember hplain
    exact hvalue (Evaluated.getElem?_ofMembers_leading hmember hplain)
  · intro i j member last v hlt hmember hbefore hinitializer hplain hnumber
    obtain ⟨k, rfl⟩ := Nat.exists_eq_add_of_le (Nat.le_of_lt hlt)
    obtain ⟨literal, hstart⟩ := hlast hbefore hinitializer
    rw [hvalue hstart] at hnumber
    rw [hnumber] at hstart
    rw [hvalue (Evaluated.getElem?_ofMembers_counted hstart hmember hplain)]
    congr 2
    omega
  · intro i j member last hlt hmember hbefore hinitializer hplain hnumber
    obtain ⟨k, rfl⟩ := Nat.exists_eq_add_of_lt hlt
    obtain ⟨literal, hstart⟩ := hlast hbefore hinitializer
    rw [hvalue hstart] at hnumber
    exact hvalue (Evaluated.getElem?_ofMembers_uncounted hstart
      (Evaluated.following_evaluateConstant hnumber) hmember hplain)

end DeclarationTable

/-! ### References to enums and to their members -/

/-- What a reference to a finished definition leaves in the table of definitions. -/
def ReferenceMode.definitions (mode : ReferenceMode) (name : String) (schema : Schema) :
    List (String × Schema) :=
  if mode = .share then [(name, schema)] else []

namespace Resolve

section Runs

variable {α β : Type} {m : Resolve α} {c c' : Context} {a : α} {reason : Interruption}

theorem bind_of_ok (h : m c = .ok a c') (f : α → Resolve β) : (m >>= f) c = f a c' := by
  simp [bind, EStateM.bind, h]

theorem bind_of_error (h : m c = .error reason c') (f : α → Resolve β) :
    (m >>= f) c = .error reason c' := by
  simp [bind, EStateM.bind, h]

end Runs

variable {env : Environment} {policy : Policy} {member : EnumMember}
  {members before after : List EnumMember} {schemas : List Schema} {schema : Schema}
  {location : Option Location} {name text : String} {others : List Declaration} {budget : Nat}

/-- The failure of an enum member whose value is no literal. -/
def memberFailure (env : Environment) (member : EnumMember) : Failure :=
  ⟨.invalidEnumMember member.qualifiedName (env.evaluateMember member).flags,
    some (.declaration (.enumMember member))⟩

theorem enumMember_of_valueless (hname : member.memberName.plain = .ok text)
    (valueless : (env.evaluateMember member).literalSchema? = none) (c : Context) :
    enumMember env member c =
      .error (.fault (.failure (memberFailure env member))) (c.note (env.memberEvents member)) := by
  have hplain : ofExcept member.memberName.plain c = .ok text c := by
    rw [hname]
    rfl
  rw [enumMember, bind_of_ok hplain, bind_of_ok record_run]
  simp only [valueless]
  rfl

theorem mapM_enumMember_of_valueless
    (values : ∀ other ∈ before, ∃ schema, env.memberSchema? other = some schema)
    (hname : member.memberName.plain = .ok text)
    (valueless : (env.evaluateMember member).literalSchema? = none) (after : List EnumMember)
    (c : Context) :
    ∃ c', (before ++ member :: after).mapM (enumMember env) c =
      .error (.fault (.failure (memberFailure env member))) c' := by
  induction before generalizing c with
  | nil =>
      rw [List.nil_append, List.mapM_cons]
      exact ⟨_, bind_of_error (enumMember_of_valueless hname valueless c) _⟩
  | cons first rest ih =>
      obtain ⟨⟨schema, hschema⟩, hrest⟩ := List.forall_mem_cons.mp values
      have hfirst : enumMember env first c = .ok schema (c.note (env.memberEvents first)) :=
        enumMember_eq_ok_iff.mpr ⟨hschema, rfl⟩
      obtain ⟨c', hc'⟩ := ih hrest (c.note (env.memberEvents first))
      rw [List.cons_append, List.mapM_cons, bind_of_ok hfirst]
      exact ⟨c', bind_of_error hc' _⟩

end Resolve

section References

open Resolve

variable {env : Environment} {policy : Policy} {member : EnumMember}
  {members before after : List EnumMember} {schemas : List Schema} {schema : Schema}
  {location : Option Location} {name text : String} {others : List Declaration}

theorem resolveWithin_enum (found : env.declarations name = .enum location name members :: others)
    (values : List.Forall₂ (fun member schema => env.memberSchema? member = some schema)
      members schemas)
    (budget : Nat) (policy : Policy) (location' : Option Location) (arguments : List TypeExpr) :
    (resolveWithin (budget + 1) env policy (.reference location' name arguments)).1 =
      .ok ⟨policy.mode.occurrence name (.enum name schemas),
        policy.mode.definitions name (.enum name schemas)⟩ := by
  obtain ⟨mode, aliases⟩ := policy
  set events := Environment.lookupEvents name (env.declarations name)
  set c : Context := (({} : Context).note events).note
    (if arguments.isEmpty then [] else [.ignoredArguments name])
  have hbody : BodyRule env (Gives (typeWithin env ⟨mode, aliases⟩ budget))
      (.enum location name members) (c.enter name) (.enum name schemas)
      ((c.enter name).note (members.flatMap env.memberEvents)) := .enum values
  rw [resolveWithin_eq_ok_iff]
  cases mode with
  | expand =>
      have hnamed : NamedRule .expand name _ c _ _ := .inlined rfl (by simp [c]) hbody (by simp [c])
      exact ⟨_, typeWithin_succ_eq_ok_iff.mpr (.reference (.definition found rfl hnamed)), rfl⟩
  | share =>
      have hnamed : NamedRule .share name _ c _ _ := .recorded rfl (by simp [c]) hbody (by simp)
      exact ⟨_, typeWithin_succ_eq_ok_iff.mpr (.reference (.definition found rfl hnamed)), rfl⟩

theorem resolveWithin_enum_of_valueless
    (found : env.declarations name = .enum location name (before ++ member :: after) :: others)
    (values : ∀ other ∈ before, ∃ schema, env.memberSchema? other = some schema)
    (hname : member.memberName.plain = .ok text)
    (valueless : (env.evaluateMember member).literalSchema? = none)
    (budget : Nat) (policy : Policy) (location' : Option Location) (arguments : List TypeExpr) :
    (resolveWithin (budget + 1) env policy (.reference location' name arguments)).1 =
      .error (.fault (.failure (memberFailure env member))) := by
  set events := Environment.lookupEvents name (env.declarations name)
  set c : Context := (({} : Context).note events).note
    (if arguments.isEmpty then [] else [.ignoredArguments name])
  obtain ⟨c', hmembers⟩ := mapM_enumMember_of_valueless values hname valueless after (c.enter name)
  have hbody : declaration env (typeWithin env policy budget)
      (.enum location name (before ++ member :: after)) (c.enter name) =
        .error (.fault (.failure (memberFailure env member))) c' := bind_of_error hmembers _
  have hnamed : named policy.mode name _ c = _ := named_of_error rfl (by simp [c]) hbody
  have hrun : typeWithin env policy (budget + 1) (.reference location' name arguments) {} =
      .error (.fault (.failure (memberFailure env member))) c'.leave := by
    rw [typeWithin, step, reference]
    change (record events >>= _) {} = _
    rw [bind_of_ok record_run, found]
    exact hnamed
  rw [resolveWithin, hrun]

theorem resolveWithin_enumMember (found : env.declarations name = .enumMember member :: others)
    (value : env.memberSchema? member = some schema)
    (budget : Nat) (policy : Policy) (location' : Option Location) (arguments : List TypeExpr) :
    (resolveWithin (budget + 1) env policy (.reference location' name arguments)).1 =
      .ok ⟨schema, []⟩ := by
  rw [resolveWithin_eq_ok_iff]
  exact ⟨_, typeWithin_succ_eq_ok_iff.mpr (.reference (.member found value rfl)), rfl⟩

theorem exists_memberSchema? (hplain : ∃ text, member.memberName.plain = .ok text)
    (hvalue : (env.evaluateMember member).literalSchema? ≠ none) :
    ∃ schema, env.memberSchema? member = some schema := by
  obtain ⟨text, htext⟩ := hplain
  obtain ⟨value, hvalue⟩ := Option.ne_none_iff_exists'.mp hvalue
  refine ⟨.enumMember text value, Environment.memberSchema?_eq_some_iff.mpr ⟨text, value, ?_⟩⟩
  rw [htext]
  exact ⟨rfl, hvalue, rfl⟩

theorem exists_memberSchemas
    (h : ∀ member ∈ members, ∃ schema, env.memberSchema? member = some schema) :
    ∃ schemas, List.Forall₂ (fun member schema => env.memberSchema? member = some schema)
      members schemas := by
  induction members with
  | nil => exact ⟨[], .nil⟩
  | cons first rest ih =>
      obtain ⟨⟨schema, hfirst⟩, hrest⟩ := List.forall_mem_cons.mp h
      obtain ⟨schemas, hschemas⟩ := ih hrest
      exact ⟨schema :: schemas, .cons hfirst hschemas⟩

/-- Either all members have a value, or there is a first one that has none. -/
theorem valued_or_exists_first (value? : EnumMember → Option Schema) (members : List EnumMember) :
    (∀ member ∈ members, value? member ≠ none) ∨
      ∃ before member after, members = before ++ member :: after ∧
        (∀ other ∈ before, value? other ≠ none) ∧ value? member = none := by
  induction members with
  | nil => exact .inl (List.forall_mem_nil _)
  | cons first rest ih =>
      by_cases hfirst : value? first = none
      · exact .inr ⟨[], first, rest, rfl, List.forall_mem_nil _, hfirst⟩
      obtain hrest | ⟨before, member, after, rfl, hbefore, hmember⟩ := ih
      · exact .inl (List.forall_mem_cons.mpr ⟨hfirst, hrest⟩)
      · exact .inr ⟨first :: before, member, after, rfl,
          List.forall_mem_cons.mpr ⟨hfirst, hbefore⟩, hmember⟩

end References

/-- What references to an enum and to its members become. The enum is listed with the values of all
its members, unless one of them is no literal: then the first of these is at fault. Its members are
found as they are listed. -/
structure DeclarationTable.Lists (table : DeclarationTable) (name : String)
    (members : List EnumMember) : Prop where
  resolves_iff : ∀ (budget : Nat) (policy : Policy) (location : Option Location)
    (arguments : List TypeExpr),
    (∃ model, (resolveWithin (budget + 1) (.ofTable table) policy
        (.reference location name arguments)).1 = .ok model) ↔
      ∀ member ∈ members, (table.evaluateMember member).literalSchema? ≠ none
  listed : (∀ member ∈ members, (table.evaluateMember member).literalSchema? ≠ none) →
    ∃ schemas, List.Forall₂ (fun member schema =>
        (Environment.ofTable table).memberSchema? member = some schema) members schemas ∧
      ∀ (budget : Nat) (policy : Policy) (location : Option Location) (arguments : List TypeExpr),
        (resolveWithin (budget + 1) (.ofTable table) policy
            (.reference location name arguments)).1 =
          .ok ⟨policy.mode.occurrence name (.enum name schemas),
            policy.mode.definitions name (.enum name schemas)⟩
  refused : ∀ (before : List EnumMember) (member : EnumMember) (after : List EnumMember),
    members = before ++ member :: after →
    (∀ other ∈ before, (table.evaluateMember other).literalSchema? ≠ none) →
    (table.evaluateMember member).literalSchema? = none →
      ∀ (budget : Nat) (policy : Policy) (location : Option Location) (arguments : List TypeExpr),
        (resolveWithin (budget + 1) (.ofTable table) policy
            (.reference location name arguments)).1 =
          .error (.fault (.failure (Resolve.memberFailure (.ofTable table) member)))

theorem DeclarationTable.lists {table : DeclarationTable} {location : Option Location}
    {name : String} {members : List EnumMember}
    (first : (Environment.ofTable table).IsFirst (.enum location name members))
    (plain : ∀ member ∈ members, ∃ text, member.memberName.plain = .ok text) :
    table.Lists name members := by
  obtain ⟨others, hfound⟩ := first
  have hlisted : (∀ member ∈ members, (table.evaluateMember member).literalSchema? ≠ none) →
      ∃ schemas, List.Forall₂ (fun member schema =>
        (Environment.ofTable table).memberSchema? member = some schema) members schemas := by
    intro hvalues
    exact exists_memberSchemas fun member hmember =>
      exists_memberSchema? (plain member hmember) (hvalues member hmember)
  have hrefused : ∀ before member after, members = before ++ member :: after →
      (∀ other ∈ before, (table.evaluateMember other).literalSchema? ≠ none) →
      (table.evaluateMember member).literalSchema? = none →
        ∀ budget policy location arguments,
          (resolveWithin (budget + 1) (.ofTable table) policy
              (.reference location name arguments)).1 =
            .error (.fault (.failure (Resolve.memberFailure (.ofTable table) member))) := by
    rintro before member after rfl hvalues valueless budget policy location arguments
    obtain ⟨hbefore, hmember⟩ := List.forall_mem_append.mp plain
    obtain ⟨text, htext⟩ := hmember member List.mem_cons_self
    exact resolveWithin_enum_of_valueless hfound (fun other hother =>
      exists_memberSchema? (hbefore other hother) (hvalues other hother)) htext valueless budget
      policy location arguments
  refine ⟨?_, ?_, hrefused⟩
  · intro budget policy location arguments
    constructor
    · rintro ⟨model, hmodel⟩
      obtain hvalues | ⟨before, member, after, hmembers, hbefore, hnone⟩ :=
        valued_or_exists_first (fun member => (table.evaluateMember member).literalSchema?) members
      · exact hvalues
      · rw [hrefused before member after hmembers hbefore hnone] at hmodel
        cases hmodel
    · intro hvalues
      obtain ⟨schemas, hschemas⟩ := hlisted hvalues
      exact ⟨_, resolveWithin_enum hfound hschemas budget policy location arguments⟩
  · intro hvalues
    obtain ⟨schemas, hschemas⟩ := hlisted hvalues
    exact ⟨schemas, hschemas, resolveWithin_enum hfound hschemas⟩

/-- **Enums are numbered and listed.** In a table where no enum member is registered twice, the
members of every enum have the values that numbering gives them; references to the enum list these
values or fail on the first that is no literal, and references to a member find what is listed. -/
theorem enum_numbered {declarations : List Declaration} {location : Option Location} {name : String}
    {members : List EnumMember} (distinct : (DeclarationTable.memberNames declarations).Nodup)
    (registered : .enum location name members ∈ declarations) :
    (DeclarationTable.ofList declarations).Numbers members ∧
    ((Environment.ofTable (.ofList declarations)).IsFirst (.enum location name members) →
      (∀ member ∈ members, ∃ text, member.memberName.plain = .ok text) →
        (DeclarationTable.ofList declarations).Lists name members) ∧
    ∀ member ∈ members,
      (Environment.ofTable (.ofList declarations)).IsFirst (.enumMember member) →
      ∀ schema, (Environment.ofTable (.ofList declarations)).memberSchema? member = some schema →
        ∀ (budget : Nat) (policy : Policy) (location : Option Location) (arguments : List TypeExpr),
          (resolveWithin (budget + 1) (.ofTable (.ofList declarations)) policy
            (.reference location member.qualifiedName arguments)).1 = .ok ⟨schema, []⟩ := by
  refine ⟨DeclarationTable.numbers distinct registered, DeclarationTable.lists, ?_⟩
  rintro member - ⟨others, hfound⟩ schema hschema
  exact resolveWithin_enumMember hfound hschema

/-- A member of the enum `E`, with the kind and the text of its initializer if it has one. -/
def gappedMember (name : String) (initializer : Option (LiteralKind × String)) : EnumMember :=
  ⟨none, name, "E", ⟨.identifier, name, none⟩,
    initializer.map fun literal => ⟨literal.1, literal.2, none⟩⟩

/-- Counting starts at zero, starts again at sixteen and stops at a text. -/
def gappedMembers : List EnumMember :=
  [gappedMember "A" none, gappedMember "B" none, gappedMember "C" (some (.numeric, "0x10")),
    gappedMember "D" none, gappedMember "F" (some (.string, "f")), gappedMember "G" none]

theorem enum_numbered_gapped :
    let declarations : List Declaration := [.enum none "E" gappedMembers]
    let table := DeclarationTable.ofList declarations
    let env := Environment.ofTable table
    (DeclarationTable.memberNames declarations).Nodup ∧
    .enum none "E" gappedMembers ∈ declarations ∧
    env.IsFirst (.enum none "E" gappedMembers) ∧
    env.IsFirst (.enumMember (gappedMember "D" none)) ∧
    table.evaluateMember (gappedMember "B" none) = .enumNumber (.integer 1) ∧
    table.evaluateMember (gappedMember "D" none) = .enumNumber (.integer 17) ∧
    table.evaluateMember (gappedMember "G" none) = .computedNumber ∧
    (resolveWithin 1 env ⟨.share, false⟩ (.reference none "E" [])).1 =
      .error (.fault (.failure (Resolve.memberFailure env (gappedMember "G" none)))) ∧
    (resolveWithin 1 env ⟨.share, false⟩ (.reference none "E.D" [])).1 =
      .ok ⟨.enumMember "D" (.numberLiteral (.ofInt 17)), []⟩ := by
  intro declarations table env
  have hdistinct : (DeclarationTable.memberNames declarations).Nodup := by decide
  have hmem : .enum none "E" gappedMembers ∈ declarations := List.mem_cons_self
  have hfirst : env.IsFirst (.enum none "E" gappedMembers) := ⟨[], rfl⟩
  have hfirst' : env.IsFirst (.enumMember (gappedMember "D" none)) := ⟨[], rfl⟩
  have hplain : ∀ member ∈ gappedMembers, ∃ text, member.memberName.plain = .ok text := by
    simp [gappedMembers, gappedMember, PropertyName.plain]
  have hvalues : ∀ other ∈ gappedMembers.take 5,
      (table.evaluateMember other).literalSchema?.isSome := by
    decide
  have htext : ∀ number, table.evaluateMember (gappedMember "F" (some (.string, "f"))) ≠
      .enumNumber number := by
    intro number hnumber
    cases congrArg Evaluated.flags hnumber
  obtain ⟨hnumbers, hlists, hmembers⟩ := enum_numbered hdistinct hmem
  refine ⟨hdistinct, hmem, hfirst, hfirst', ?_, ?_, ?_, ?_, ?_⟩
  · refine hnumbers.leading 1 _ rfl fun index member _ hle hindex => ?_
    obtain rfl | rfl : index = 0 ∨ index = 1 := by omega
    all_goals
      cases hindex
      rfl
  · refine hnumbers.counted 3 2 _ _ 16 (by decide) rfl rfl (by decide) ?_ rfl
    intro index member hlow hhigh hindex
    obtain rfl : index = 3 := by omega
    cases hindex
    rfl
  · refine hnumbers.uncounted 5 4 _ _ (by decide) rfl rfl (by decide) ?_ htext
    intro index member hlow hhigh hindex
    obtain rfl : index = 5 := by omega
    cases hindex
    rfl
  · exact (hlists hfirst hplain).refused (gappedMembers.take 5) _ [] rfl
      (fun other hother => Option.isSome_iff_ne_none.mp (hvalues other hother)) rfl 0
      ⟨.share, false⟩ none []
  · exact hmembers _ (by simp [gappedMembers]) hfirst' _ rfl 0 ⟨.share, false⟩ none []

end TypeSchema
