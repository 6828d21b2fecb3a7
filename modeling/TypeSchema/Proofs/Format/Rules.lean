import TypeSchema.Format.Range
import TypeSchema.Format.Reader
import TypeSchema.Proofs.Basic

/-!
# Rules of reading

What it takes for each reader to succeed. A node is read by the rule for its kind, given how the
nodes inside it are read; the rules of types and members are indexed by what is read, so that a
case analysis of a successful reading tells which words of the format were met.
-/

namespace TypeSchema.Format

variable {scope : Scope} {field kind text : String} {json : Json} {pointer : Pointer}

theorem fail_ne_ok {α : Type} {problem : Problem} {a : α} :
    (fail problem pointer : Except Error α) ≠ .ok a := by
  intro h
  cases h

/-! ### Fields -/

theorem isObject_of_get? {value : Json} (h : json.get? field = some value) : json.isObject := by
  cases json with
  | object fields => rfl
  | _ => cases h

theorem requireObject_eq_ok_iff : requireObject json pointer = .ok () ↔ json.isObject := by
  rw [requireObject]
  by_cases h : json.isObject
  · rw [if_pos h]
    exact iff_of_true rfl h
  · rw [if_neg h]
    exact iff_of_false fail_ne_ok h

theorem readKind_eq_ok_iff :
    readKind json pointer = .ok kind ↔ json.get? "kind" = some (.text kind) ∧ kind ≠ "" := by
  rw [readKind, except_bind_eq_ok_iff]
  constructor
  · rintro ⟨_, -, h⟩
    split at h
    · next word hword =>
        by_cases hempty : word = ""
        · rw [if_pos hempty] at h
          exact absurd h fail_ne_ok
        · rw [if_neg hempty] at h
          obtain rfl := Except.ok.inj h
          exact ⟨hword, hempty⟩
    · exact absurd h fail_ne_ok
  · rintro ⟨hkind, hempty⟩
    refine ⟨(), requireObject_eq_ok_iff.mpr (isObject_of_get? hkind), ?_⟩
    simp only [hkind, if_neg hempty]
    rfl

theorem readString_eq_ok_iff :
    readString json field pointer = .ok text ↔ json.get? field = some (.text text) := by
  rw [readString]
  constructor
  · intro h
    split at h
    · next hfield =>
        obtain rfl := Except.ok.inj h
        exact hfield
    · exact absurd h fail_ne_ok
  · intro h
    rw [h]

theorem readList_eq_ok_iff {items : List Json} :
    readList json field pointer = .ok items ↔
      json.get? field = none ∧ items = [] ∨ json.get? field = some (.array items) := by
  rw [readList]
  constructor
  · intro h
    split at h
    · next hfield =>
        obtain rfl := Except.ok.inj h
        exact .inl ⟨hfield, rfl⟩
    · next hfield =>
        obtain rfl := Except.ok.inj h
        exact .inr hfield
    · exact absurd h fail_ne_ok
  · rintro (⟨hfield, rfl⟩ | hfield) <;> rw [hfield]

section Parts

variable {α : Type} {read : Json → Pointer → Except Error α} {items : List Json} {found : List α}

theorem exists_of_mem_readEach {position : Nat} {a : α}
    (h : readEach read pointer position items = .ok found) (ha : a ∈ found) :
    ∃ index item, items[index]? = some item ∧
      read item (pointer.index (position + index)) = .ok a := by
  induction items generalizing position found with
  | nil =>
      obtain rfl := Except.ok.inj h
      cases ha
  | cons item rest ih =>
      obtain ⟨first, hfirst, h⟩ := except_bind_eq_ok_iff.mp h
      obtain ⟨others, hothers, h⟩ := except_bind_eq_ok_iff.mp h
      obtain rfl := Except.ok.inj h
      obtain rfl | ha := List.mem_cons.mp ha
      · exact ⟨0, item, rfl, hfirst⟩
      · obtain ⟨index, item', hitem, hread⟩ := ih hothers ha
        refine ⟨index + 1, item', hitem, ?_⟩
        rw [← hread, Nat.add_assoc, Nat.add_comm 1]

theorem readAll_eq_ok_iff :
    readAll read json field pointer = .ok found ↔ ∃ items,
      readList json field pointer = .ok items ∧
        readEach read (pointer.field field) 0 items = .ok found :=
  except_bind_eq_ok_iff

/-- Whatever the reader yields has a property, then so do the parts of a list. -/
theorem forall_of_readAll {P : α → Prop} (hread : ∀ item place a, read item place = .ok a → P a)
    (h : readAll read json field pointer = .ok found) : ∀ a ∈ found, P a := by
  intro a ha
  obtain ⟨items, -, heach⟩ := readAll_eq_ok_iff.mp h
  obtain ⟨_, _, -, hitem⟩ := exists_of_mem_readEach heach ha
  exact hread _ _ _ hitem

theorem readOptional_eq_ok_iff {found : Option α} :
    readOptional read json field pointer = .ok found ↔
      (json.get? field = none ∨ json.get? field = some .null) ∧ found = none ∨
        ∃ value a, json.get? field = some value ∧ value ≠ .null ∧
          read value (pointer.field field) = .ok a ∧ found = some a := by
  rw [readOptional]
  constructor
  · intro h
    split at h
    · next hfield =>
        obtain rfl := Except.ok.inj h
        exact .inl ⟨.inl hfield, rfl⟩
    · next hfield =>
        obtain rfl := Except.ok.inj h
        exact .inl ⟨.inr hfield, rfl⟩
    · next value hnull hfield =>
        obtain ⟨a, ha, rfl⟩ := except_map_eq_ok_iff.mp h
        exact .inr ⟨value, a, hfield, hnull, ha, rfl⟩
  · rintro (⟨hfield | hfield, rfl⟩ | ⟨value, a, hfield, hnull, ha, rfl⟩)
    · rw [hfield]
    · rw [hfield]
    · rw [hfield]
      cases value with
      | null => exact absurd rfl hnull
      | _ => exact except_map_eq_ok_iff.mpr ⟨a, ha, rfl⟩

theorem forall_of_readOptional {P : α → Prop}
    (hread : ∀ value place a, read value place = .ok a → P a) {found : Option α}
    (h : readOptional read json field pointer = .ok found) : ∀ a ∈ found, P a := by
  obtain ⟨-, rfl⟩ | ⟨value, a, -, -, ha, rfl⟩ := readOptional_eq_ok_iff.mp h
  · exact fun _ hnone => nomatch hnone
  · intro _ hsome
    obtain rfl := Option.mem_some.mp hsome
    exact hread _ _ _ ha

theorem readRequired_eq_ok_iff {missing : Problem} {a : α} :
    readRequired read missing json field pointer = .ok a ↔
      ∃ value, json.get? field = some value ∧ read value (pointer.field field) = .ok a := by
  rw [readRequired]
  cases hfield : json.get? field with
  | none => simp [fail_ne_ok]
  | some value => simp

end Parts

/-! ### Locations -/

/-- The file that a location tells, or the one that its node comes from otherwise. -/
def readFile (file : String) (loc : Json) (pointer : Pointer) : Except Error String :=
  match loc.get? "file" with
  | none => .ok file
  | some (.text name) => .ok name
  | some _ => fail .fileNotString pointer

theorem readLocation_of_object {fields : List (String × Json)}
    (h : json.get? "loc" = some (.object fields)) :
    readLocation scope json pointer = (do
      let name ← readFile scope.file (.object fields) pointer
      let line ← readCoordinate (.object fields) "line" pointer
      let column ← readCoordinate (.object fields) "column" pointer
      return ⟨name, line, column, pointer⟩) := by
  rw [readLocation, h, readFile]
  dsimp only
  cases (Json.object fields).get? "file" with
  | none => rfl
  | some given => cases given <;> rfl

/-- How a location is read. -/
inductive LocationRule (scope : Scope) (json : Json) (pointer : Pointer) : Location → Prop
  | unsaid (unsaid : json.get? "loc" = none ∨ json.get? "loc" = some .null) :
      LocationRule scope json pointer ⟨scope.file, 0, 0, pointer⟩
  | said {fields : List (String × Json)} {name : String} {line column : Int}
      (said : json.get? "loc" = some (.object fields))
      (named : readFile scope.file (.object fields) pointer = .ok name)
      (lined : readCoordinate (.object fields) "line" pointer = .ok line)
      (columned : readCoordinate (.object fields) "column" pointer = .ok column) :
      LocationRule scope json pointer ⟨name, line, column, pointer⟩

theorem readLocation_eq_ok_iff {location : Location} :
    readLocation scope json pointer = .ok location ↔ LocationRule scope json pointer location := by
  constructor
  · intro h
    cases hloc : json.get? "loc" with
    | none =>
        rw [readLocation, hloc] at h
        obtain rfl := Except.ok.inj h
        exact .unsaid (.inl hloc)
    | some loc =>
        cases loc with
        | null =>
            rw [readLocation, hloc] at h
            obtain rfl := Except.ok.inj h
            exact .unsaid (.inr hloc)
        | object fields =>
            rw [readLocation_of_object hloc] at h
            obtain ⟨name, hname, h⟩ := except_bind_eq_ok_iff.mp h
            obtain ⟨line, hline, h⟩ := except_bind_eq_ok_iff.mp h
            obtain ⟨column, hcolumn, h⟩ := except_bind_eq_ok_iff.mp h
            obtain rfl := Except.ok.inj h
            exact .said hloc hname hline hcolumn
        | _ =>
            rw [readLocation, hloc] at h
            exact absurd h fail_ne_ok
  · intro h
    cases h with
    | unsaid unsaid =>
        obtain hloc | hloc := unsaid
        · rw [readLocation, hloc]
        · rw [readLocation, hloc]
    | said said named lined columned =>
        rw [readLocation_of_object said, named, except_bind_eq_ok_iff]
        refine ⟨_, rfl, ?_⟩
        rw [lined, columned]
        rfl

theorem pointer_of_readLocation {location : Location}
    (h : readLocation scope json pointer = .ok location) : location.pointer = pointer := by
  cases readLocation_eq_ok_iff.mp h <;> rfl

/-! ### Literals and names -/

theorem readLiteral_eq_ok_iff {literal : Literal} :
    readLiteral scope json pointer = .ok literal ↔ ∃ kind literalKind,
      readKind json pointer = .ok kind ∧ literalKinds.lookup kind = some literalKind ∧
        readLiteralOf scope literalKind json pointer = .ok literal := by
  rw [readLiteral, except_bind_eq_ok_iff]
  constructor
  · rintro ⟨kind, hkind, h⟩
    split at h
    · next literalKind hlookup => exact ⟨kind, literalKind, hkind, hlookup, h⟩
    · exact absurd h fail_ne_ok
  · rintro ⟨kind, literalKind, hkind, hlookup, h⟩
    refine ⟨kind, hkind, ?_⟩
    rw [hlookup]
    exact h

theorem readInitializer_eq_ok_iff {literal : Literal} :
    readInitializer scope json pointer = .ok literal ↔ ∃ kind,
      readKind json pointer = .ok kind ∧
        readLiteralOf scope ((literalKinds.lookup kind).getD .expression) json pointer =
          .ok literal :=
  except_bind_eq_ok_iff

theorem readLiteralOf_eq_ok_iff {literalKind : LiteralKind} {literal : Literal} :
    readLiteralOf scope literalKind json pointer = .ok literal ↔ ∃ text location,
      readLiteralText scope literalKind json pointer = .ok text ∧
        readLocation scope json pointer = .ok location ∧
          literal = ⟨literalKind, text, some location⟩ := by
  simp only [readLiteralOf, except_bind_eq_ok_iff, except_pure_eq_ok_iff]
  constructor
  · rintro ⟨text, htext, location, hlocation, rfl⟩
    exact ⟨text, location, htext, hlocation, rfl⟩
  · rintro ⟨text, location, htext, hlocation, rfl⟩
    exact ⟨text, htext, location, hlocation, rfl⟩

/-- How a name is read. -/
inductive NameRule (scope : Scope) (json : Json) (pointer : Pointer) : PropertyName → Prop
  | short {text : String} (short : json = .text text) :
      NameRule scope json pointer ⟨.identifier, text, some ⟨scope.file, 0, 0, pointer⟩⟩
  | node {kind text : String} {nameKind : NameKind} {location : Location}
      (told : readKind json pointer = .ok kind) (known : nameKinds.lookup kind = some nameKind)
      (shown : displayField scope json "text" pointer = .ok text)
      (located : readLocation scope json pointer = .ok location) :
      NameRule scope json pointer ⟨nameKind, text, some location⟩

theorem readName_eq_ok_iff {name : PropertyName} :
    readName scope json pointer = .ok name ↔ NameRule scope json pointer name := by
  constructor
  · intro h
    cases json with
    | text short =>
        obtain rfl := Except.ok.inj h
        exact .short rfl
    | _ =>
        obtain ⟨kind, hkind, h⟩ := except_bind_eq_ok_iff.mp h
        split at h
        · next nameKind hlookup =>
            obtain ⟨text, htext, h⟩ := except_bind_eq_ok_iff.mp h
            obtain ⟨location, hlocation, h⟩ := except_bind_eq_ok_iff.mp h
            obtain rfl := Except.ok.inj h
            exact .node hkind hlookup htext hlocation
        · exact absurd h fail_ne_ok
  · intro h
    cases h with
    | short short =>
        rw [short]
        rfl
    | @node kind text nameKind location hkind known shown located =>
        rw [readName.eq_def]
        split
        · cases (readKind_eq_ok_iff.mp hkind).1
        · rw [hkind]
          simp only [bind, Except.bind, known, shown, located]
          rfl

/-! ### Members -/

/-- How a member is read, given how types are. -/
inductive MemberRule (scope : Scope) (readType : TypeReader) (json : Json) (pointer : Pointer) :
    Member → Prop
  | property {location : Location} {name : PropertyName} {type : Option TypeExpr}
      (told : readKind json pointer = .ok "PropertySignature")
      (located : readLocation scope json pointer = .ok location)
      (named : readMemberName scope json pointer = .ok name)
      (typed : readOptional readType json "type" pointer = .ok type) :
      MemberRule scope readType json pointer
        (.property (some location) name type (readFlag json "optional"))
  | index {location : Location} {parameters : List Json} {parameter : Json} {name : String}
      {key type : Option TypeExpr} (told : readKind json pointer = .ok "IndexSignature")
      (located : readLocation scope json pointer = .ok location)
      (listed : readList json "parameters" pointer = .ok parameters)
      (first : parameters.head?.getD (.object []) = parameter) (object : parameter.isObject)
      (shown : displayField scope parameter "name" ((pointer.field "parameters").index 0) =
        .ok name)
      (keyed : readOptional readType parameter "type" ((pointer.field "parameters").index 0) =
        .ok key)
      (typed : readOptional readType json "type" pointer = .ok type) :
      MemberRule scope readType json pointer
        (.index (some location) name key type)
  | other {kind : String} {location : Location} {name : Option PropertyName}
      (told : readKind json pointer = .ok kind) (known : kind ∈ otherMemberKinds)
      (located : readLocation scope json pointer = .ok location)
      (named : readOptional (readName scope) json "name" pointer = .ok name) :
      MemberRule scope readType json pointer (.other (some location) kind name)

variable {readType : TypeReader}

theorem readMember_eq_ok_iff {member : Member} :
    readMember scope readType json pointer = .ok member ↔
      MemberRule scope readType json pointer member := by
  rw [readMember, except_bind_eq_ok_iff]
  constructor
  · rintro ⟨kind, hkind, hrest⟩
    obtain ⟨location, hlocation, hbody⟩ := except_bind_eq_ok_iff.mp hrest
    split_ifs at hbody with hproperty hindex hother
    · subst hproperty
      obtain ⟨name, hname, h⟩ := except_bind_eq_ok_iff.mp hbody
      obtain ⟨type, htype, h⟩ := except_bind_eq_ok_iff.mp h
      obtain rfl := Except.ok.inj h
      exact .property hkind hlocation hname htype
    · subst hindex
      obtain ⟨parameters, hparameters, h⟩ := except_bind_eq_ok_iff.mp hbody
      obtain ⟨_, hobject, h⟩ := except_bind_eq_ok_iff.mp h
      obtain ⟨name, hname, h⟩ := except_bind_eq_ok_iff.mp h
      obtain ⟨key, hkey, h⟩ := except_bind_eq_ok_iff.mp h
      obtain ⟨type, htype, h⟩ := except_bind_eq_ok_iff.mp h
      obtain rfl := Except.ok.inj h
      exact .index hkind hlocation hparameters rfl (requireObject_eq_ok_iff.mp hobject) hname hkey
        htype
    · obtain ⟨name, hname, h⟩ := except_bind_eq_ok_iff.mp hbody
      obtain rfl := Except.ok.inj h
      exact .other hkind hother hlocation hname
    · exact absurd hbody fail_ne_ok
  · intro h
    cases h with
    | @property location name type hkind located named typed =>
        refine ⟨_, hkind, except_bind_eq_ok_iff.mpr ⟨location, located, ?_⟩⟩
        rw [if_pos rfl, readProperty, except_bind_eq_ok_iff]
        exact ⟨name, named, except_bind_eq_ok_iff.mpr ⟨type, typed, rfl⟩⟩
    | @index location parameters parameter name key type hkind located listed first object shown
        keyed typed =>
        subst first
        refine ⟨_, hkind, except_bind_eq_ok_iff.mpr ⟨location, located, ?_⟩⟩
        rw [if_neg (by decide), if_pos rfl, readIndex, except_bind_eq_ok_iff]
        refine ⟨parameters, listed, except_bind_eq_ok_iff.mpr ⟨(), ?_, ?_⟩⟩
        · exact requireObject_eq_ok_iff.mpr object
        · exact except_bind_eq_ok_iff.mpr ⟨name, shown, except_bind_eq_ok_iff.mpr ⟨key, keyed,
            except_bind_eq_ok_iff.mpr ⟨type, typed, rfl⟩⟩⟩
    | @other kind location name hkind known located named =>
        refine ⟨_, hkind, except_bind_eq_ok_iff.mpr ⟨location, located, ?_⟩⟩
        have hproperty : kind ≠ "PropertySignature" := by
          rintro rfl
          exact absurd known (by decide)
        have hindex : kind ≠ "IndexSignature" := by
          rintro rfl
          exact absurd known (by decide)
        rw [if_neg hproperty, if_neg hindex, if_pos known, except_bind_eq_ok_iff]
        exact ⟨name, named, rfl⟩

/-! ### Types -/

/-- How a type is read, given how the types inside it are. -/
inductive TypeRule (scope : Scope) (readType : TypeReader) (json : Json) (pointer : Pointer)
    (location : Location) : String → TypeExpr → Prop
  | keyword {kind : String} {keyword : Keyword} (known : keywordKinds.lookup kind = some keyword) :
      TypeRule scope readType json pointer location kind (.keyword (some location) keyword)
  | literal {literal : Literal}
      (part : readRequired (readLiteral scope) .missingLiteral json "literal" pointer =
        .ok literal) :
      TypeRule scope readType json pointer location "LiteralType" (.literal (some location) literal)
  | array {element : TypeExpr}
      (part : readRequired readType .missingElementType json "elementType" pointer =
        .ok element) :
      TypeRule scope readType json pointer location "ArrayType" (.array (some location) element)
  | union {types : List TypeExpr} (parts : readAll readType json "types" pointer = .ok types) :
      TypeRule scope readType json pointer location "UnionType" (.union (some location) types)
  | intersection {types : List TypeExpr}
      (parts : readAll readType json "types" pointer = .ok types) :
      TypeRule scope readType json pointer location "IntersectionType"
        (.intersection (some location) types)
  | parenthesized {inner : TypeExpr}
      (part : readRequired readType .missingParenthesizedType json "type" pointer = .ok inner) :
      TypeRule scope readType json pointer location "ParenthesizedType"
        (.parenthesized (some location) inner)
  | tuple {elements : List TypeExpr}
      (parts : readAll readType json "elements" pointer = .ok elements) :
      TypeRule scope readType json pointer location "TupleType" (.tuple (some location) elements)
  | object {members : List Member}
      (parts : readAll (readMember scope readType) json "members" pointer = .ok members) :
      TypeRule scope readType json pointer location "TypeLiteral" (.object (some location) members)
  | reference {name : String} {arguments : List TypeExpr}
      (named : readString json "typeName" pointer = .ok name)
      (parts : readAll readType json "typeArguments" pointer = .ok arguments) :
      TypeRule scope readType json pointer location "TypeReference"
        (.reference (some location) name arguments)
  | unsupported {kind : String} (unknown : keywordKinds.lookup kind = none)
      (other : kind ∉ typeKinds) :
      TypeRule scope readType json pointer location kind (.unsupported (some location) kind)

theorem readTypeStep_eq_ok_iff {type : TypeExpr} :
    readTypeStep scope readType json pointer = .ok type ↔ ∃ kind location,
      readKind json pointer = .ok kind ∧ readLocation scope json pointer = .ok location ∧
        TypeRule scope readType json pointer location kind type := by
  simp only [readTypeStep, except_bind_eq_ok_iff]
  constructor
  · rintro ⟨kind, hkind, location, hlocation, h⟩
    refine ⟨kind, location, hkind, hlocation, ?_⟩
    cases hlookup : keywordKinds.lookup kind with
    | some keyword =>
        rw [hlookup] at h
        obtain rfl := Except.ok.inj h
        exact .keyword hlookup
    | none =>
        rw [hlookup] at h
        dsimp only at h
        -- The last case is every kind that is neither a keyword nor told apart before it.
        split at h
        case h_9 =>
          obtain rfl := Except.ok.inj h
          refine .unsupported hlookup fun hmem => ?_
          simp only [typeKinds, List.mem_cons, List.not_mem_nil, or_false] at hmem
          tauto
        case h_8 =>
          obtain ⟨name, hname, h⟩ := except_bind_eq_ok_iff.mp h
          obtain ⟨arguments, harguments, h⟩ := except_bind_eq_ok_iff.mp h
          obtain rfl := Except.ok.inj h
          exact .reference hname harguments
        all_goals
          obtain ⟨part, hpart, rfl⟩ := except_map_eq_ok_iff.mp h
        · exact .literal hpart
        · exact .array hpart
        · exact .union hpart
        · exact .intersection hpart
        · exact .parenthesized hpart
        · exact .tuple hpart
        · exact .object hpart
  · rintro ⟨kind, location, hkind, hlocation, h⟩
    refine ⟨kind, hkind, location, hlocation, ?_⟩
    cases h with
    | keyword known =>
        rw [known]
        rfl
    | literal part | array part | parenthesized part | union part | intersection part | tuple part
    | object part => exact except_map_eq_ok_iff.mpr ⟨_, part, rfl⟩
    | reference named parts =>
        exact except_bind_eq_ok_iff.mpr ⟨_, named, except_bind_eq_ok_iff.mpr ⟨_, parts, rfl⟩⟩
    | unsupported unknown other =>
        rw [unknown]
        dsimp only
        split
        case h_9 => rfl
        all_goals exact absurd (by decide) other

/-! ### Declarations and functions -/

theorem readEnumMember_eq_ok_iff {enumName : String} {member : EnumMember} :
    readEnumMember scope enumName json pointer = .ok member ↔ ∃ name initializer location,
      json.isObject ∧ readMemberName scope json pointer = .ok name ∧
        readOptional (readInitializer scope) json "initializer" pointer = .ok initializer ∧
        readLocation scope json pointer = .ok location ∧
        member = ⟨some location, name.text, enumName, name, initializer⟩ := by
  simp only [readEnumMember, except_bind_eq_ok_iff, except_pure_eq_ok_iff]
  constructor
  · rintro ⟨_, hobject, name, hname, initializer, hinitializer, location, hlocation, rfl⟩
    exact ⟨name, initializer, location, requireObject_eq_ok_iff.mp hobject, hname, hinitializer,
      hlocation, rfl⟩
  · rintro ⟨name, initializer, location, hobject, hname, hinitializer, hlocation, rfl⟩
    exact ⟨(), requireObject_eq_ok_iff.mpr hobject, name, hname, initializer, hinitializer,
      location, hlocation, rfl⟩

/-- A base is a type that is read as a reference. -/
theorem readBase_eq_ok_iff {base : BaseType} :
    readBase readType json pointer = .ok base ↔ readType json pointer = .ok base.type := by
  rw [readBase, except_bind_eq_ok_iff]
  constructor
  · rintro ⟨type, htype, h⟩
    split at h
    · obtain rfl := Except.ok.inj h
      exact htype
    · exact absurd h fail_ne_ok
  · intro h
    exact ⟨base.type, h, rfl⟩

/-- How a declaration is read, given how types are. -/
inductive DeclarationRule (scope : Scope) (readType : TypeReader) (json : Json)
    (pointer : Pointer) (location : Location) (name : String) : String → Declaration → Prop
  | enum {members : List EnumMember}
      (parts : readAll (readEnumMember scope name) json "members" pointer = .ok members) :
      DeclarationRule scope readType json pointer location name "EnumDeclaration"
        (.enum (some location) name members)
  | interface {bases : List BaseType} {members : List Member}
      (extended : readAll (readBase readType) json "heritage" pointer = .ok bases)
      (parts : readAll (readMember scope readType) json "members" pointer = .ok members) :
      DeclarationRule scope readType json pointer location name "InterfaceDeclaration"
        (.interface (some location) name members bases)
  | typeAlias {type : TypeExpr}
      (part : readRequired readType .missingAliasType json "type" pointer = .ok type) :
      DeclarationRule scope readType json pointer location name "TypeAliasDeclaration"
        (.typeAlias (some location) name type)
  | other {kind : String} (other : kind ∉ declarationKinds) :
      DeclarationRule scope readType json pointer location name kind
        (.other (some location) name kind)

theorem readDeclarationWith_eq_ok_iff {declaration : Declaration} :
    readDeclarationWith scope readType json pointer = .ok declaration ↔ ∃ kind name location,
      readKind json pointer = .ok kind ∧ readString json "name" pointer = .ok name ∧
        readLocation scope json pointer = .ok location ∧
        DeclarationRule scope readType json pointer location name kind declaration := by
  simp only [readDeclarationWith, except_bind_eq_ok_iff]
  constructor
  · rintro ⟨kind, hkind, name, hname, location, hlocation, h⟩
    refine ⟨kind, name, location, hkind, hname, hlocation, ?_⟩
    split at h
    · obtain ⟨members, hmembers, rfl⟩ := except_map_eq_ok_iff.mp h
      exact .enum hmembers
    · obtain ⟨bases, hbases, h⟩ := except_bind_eq_ok_iff.mp h
      obtain ⟨members, hmembers, h⟩ := except_bind_eq_ok_iff.mp h
      obtain rfl := Except.ok.inj h
      exact .interface hbases hmembers
    · obtain ⟨type, htype, rfl⟩ := except_map_eq_ok_iff.mp h
      exact .typeAlias htype
    · obtain rfl := Except.ok.inj h
      refine .other fun hmem => ?_
      simp only [declarationKinds, List.mem_cons, List.not_mem_nil, or_false] at hmem
      tauto
  · rintro ⟨kind, name, location, hkind, hname, hlocation, h⟩
    refine ⟨kind, hkind, name, hname, location, hlocation, ?_⟩
    cases h with
    | enum parts => exact except_map_eq_ok_iff.mpr ⟨_, parts, rfl⟩
    | interface extended parts =>
        exact except_bind_eq_ok_iff.mpr ⟨_, extended, except_bind_eq_ok_iff.mpr ⟨_, parts, rfl⟩⟩
    | typeAlias part => exact except_map_eq_ok_iff.mpr ⟨_, part, rfl⟩
    | other other =>
        split
        case h_4 => rfl
        all_goals exact absurd (by decide) other

theorem readParameter_eq_ok_iff {parameter : Parameter} :
    readParameter scope readType json pointer = .ok parameter ↔ ∃ name type location,
      json.isObject ∧ readString json "name" pointer = .ok name ∧
        readOptional readType json "type" pointer = .ok type ∧
        readLocation scope json pointer = .ok location ∧
        parameter = ⟨some location, name, type, readFlag json "optional"⟩ := by
  simp only [readParameter, except_bind_eq_ok_iff, except_pure_eq_ok_iff]
  constructor
  · rintro ⟨_, hobject, name, hname, type, htype, location, hlocation, rfl⟩
    exact ⟨name, type, location, requireObject_eq_ok_iff.mp hobject, hname, htype, hlocation, rfl⟩
  · rintro ⟨name, type, location, hobject, hname, htype, hlocation, rfl⟩
    exact ⟨(), requireObject_eq_ok_iff.mpr hobject, name, hname, type, htype, location, hlocation,
      rfl⟩

theorem readSignatureWith_eq_ok_iff {signature : Signature} :
    readSignatureWith scope readType json pointer = .ok signature ↔
      ∃ parameters name returnType location, json.isObject ∧
        readAll (readParameter scope readType) json "parameters" pointer = .ok parameters ∧
        readString json "name" pointer = .ok name ∧
        readOptional readType json "returnType" pointer = .ok returnType ∧
        readLocation scope json pointer = .ok location ∧
        signature = ⟨some location, name, parameters, returnType⟩ := by
  simp only [readSignatureWith, except_bind_eq_ok_iff, except_pure_eq_ok_iff]
  constructor
  · rintro ⟨_, hobject, parameters, hparameters, name, hname, returnType, hreturn, location,
      hlocation, rfl⟩
    exact ⟨parameters, name, returnType, location, requireObject_eq_ok_iff.mp hobject, hparameters,
      hname, hreturn, hlocation, rfl⟩
  · rintro ⟨parameters, name, returnType, location, hobject, hparameters, hname, hreturn,
      hlocation, rfl⟩
    exact ⟨(), requireObject_eq_ok_iff.mpr hobject, parameters, hparameters, name, hname,
      returnType, hreturn, location, hlocation, rfl⟩

/-! ### Documents -/

theorem atOutermost_eq_ok_iff {α : Type} {read : Json → Pointer → Except Error α} {a : α} :
    atOutermost read json pointer = .ok a ↔ read json pointer = .ok a := by
  rw [atOutermost]
  cases read json pointer <;> simp [Except.mapError]

theorem readDocumentWithin_eq_ok_iff {budget : Nat} {document : Document} :
    readDocumentWithin scope budget json = .ok document ↔ ∃ declarations functions,
      json.isObject ∧
        readAll (atOutermost (readDeclaration scope budget)) json "declarations" .root =
          .ok declarations ∧
        readAll (atOutermost (readSignature scope budget)) json "functions" .root =
          .ok functions ∧
        document = ⟨declarations, functions, scope.file⟩ := by
  rw [readDocumentWithin]
  by_cases hobject : json.isObject
  · simp only [hobject, Bool.not_true, Bool.false_eq_true, if_false, except_bind_eq_ok_iff,
      except_pure_eq_ok_iff]
    constructor
    · rintro ⟨declarations, hdeclarations, functions, hfunctions, rfl⟩
      exact ⟨declarations, functions, trivial, hdeclarations, hfunctions, rfl⟩
    · rintro ⟨declarations, functions, -, hdeclarations, hfunctions, rfl⟩
      exact ⟨declarations, hdeclarations, functions, hfunctions, rfl⟩
  · simp [hobject, except_bind_eq_ok_iff, fail_ne_ok]

end TypeSchema.Format
