import TypeSchema.Proofs.Format.Origin
import TypeSchema.Proofs.Json.Parts

/-!
# Where faults are reported

A reader reports a fault at the value that it was called on, or calls another reader on a part of
it. So the pointer of a fault leads to a value of the document. There is one exception: a member
that lacks its name is read as if that were `null`, and the fault is reported where the name should
be. All faults are faults of the form, except that a document with too long an integer in it can be
refused for that.
-/

namespace TypeSchema.Format

variable {scope : Scope} {root json : Json} {pointer : Pointer} {key : String}

/-- Where a fault can be: at a value of the document, or at the name that a member lacks. -/
inductive IsPlace (root : Json) : Pointer → Prop
  | value {pointer : Pointer} {json : Json} (stands : Stands root pointer json) :
      IsPlace root pointer
  | name {place : Pointer} {position : Nat} {json : Json}
      (stands : Stands root ((place.field "members").index position) json)
      (lacks : json.get? "name" = none) :
      IsPlace root (((place.field "members").index position).field "name")

/-- A fault that a document can have: it has a place unless it is the nesting of types, and an
integer is too long for it only if there is one. -/
structure IsFault (root : Json) (error : Error) : Prop where
  place : error.problem ≠ .nestedTooDeeply → IsPlace root error.pointer
  long : error.problem = .integerTooLong → root.hasLongInteger

abbrev Placed {α : Type} (root : Json) (result : Except Error α) : Prop :=
  FailsOnly (IsFault root) result

theorem placed_fail {α : Type} {problem : Problem} (formal : problem.isFormal)
    (h : IsPlace root pointer) : Placed root (fail problem pointer : Except Error α) :=
  failsOnly_error ⟨fun _ => h, fun hlong => absurd hlong (of_decide_eq_true formal)⟩

theorem Stands.hasLongInteger (stands : Stands root pointer json) (h : json.hasLongInteger) :
    root.hasLongInteger :=
  Json.hasLongInteger_of_follow? stands.follows h

/-! ### Faults of the value itself -/

section Own

variable (place : IsPlace root pointer)

include place

theorem placed_requireObject : Placed root (requireObject json pointer) := by
  rw [requireObject]
  split
  · exact failsOnly_ok ()
  · exact placed_fail rfl place

theorem placed_readKind : Placed root (readKind json pointer) := by
  refine (placed_requireObject place).bind fun _ _ => ?_
  split
  · split
    · exact placed_fail rfl place
    · exact failsOnly_ok _
  · exact placed_fail rfl place

theorem placed_readString : Placed root (readString json key pointer) := by
  rw [readString]
  split
  · exact failsOnly_ok _
  · exact placed_fail rfl place

theorem placed_readList : Placed root (readList json key pointer) := by
  rw [readList]
  split
  · exact failsOnly_ok _
  · exact failsOnly_ok _
  · exact placed_fail rfl place

theorem placed_readFile : Placed root (readFile scope.file json pointer) := by
  rw [readFile]
  split
  · exact failsOnly_ok _
  · exact failsOnly_ok _
  · exact placed_fail rfl place

theorem placed_readCoordinate : Placed root (readCoordinate json key pointer) := by
  rw [readCoordinate]
  split
  · exact failsOnly_ok _
  · exact failsOnly_ok _
  · exact placed_fail rfl place

theorem placed_readLocation : Placed root (readLocation scope json pointer) := by
  cases hloc : json.get? "loc" with
  | none =>
      rw [readLocation, hloc]
      exact failsOnly_ok _
  | some loc =>
      cases loc with
      | null =>
          rw [readLocation, hloc]
          exact failsOnly_ok _
      | object fields =>
          rw [readLocation_of_object hloc]
          refine (placed_readFile place).bind fun _ _ => ?_
          refine (placed_readCoordinate place).bind fun _ _ => ?_
          exact (placed_readCoordinate place).bind fun _ _ => failsOnly_ok _
      | _ =>
          rw [readLocation, hloc]
          exact placed_fail rfl place

section Shown

variable (inside : json.hasLongInteger → root.hasLongInteger)

include inside

theorem placed_displayField : Placed root (displayField scope json key pointer) := by
  rw [displayField]
  split
  · exact failsOnly_ok _
  · next value hvalue =>
      cases hshown : value.display scope.showing with
      | ok _ => exact failsOnly_ok _
      | error excess =>
          have hstop := Json.stop?_of_display_eq_error hshown
          refine failsOnly_error ⟨fun _ => place, fun hlong => inside ?_⟩
          cases excess with
          | integerTooLong =>
              exact Json.hasLongInteger_of_get? hvalue (Json.hasLongInteger_of_stop? hstop)
          | tooDeep => cases hlong

theorem placed_readLiteralOf (kind : LiteralKind) :
    Placed root (readLiteralOf scope kind json pointer) := by
  refine FailsOnly.bind ?_ fun _ _ => (placed_readLocation place).bind fun _ _ => failsOnly_ok _
  rw [readLiteralText]
  split
  · exact placed_readString place
  · exact placed_displayField place inside

theorem placed_readLiteral : Placed root (readLiteral scope json pointer) := by
  refine (placed_readKind place).bind fun _ _ => ?_
  split
  · exact placed_readLiteralOf place inside _
  · exact placed_fail rfl place

theorem placed_readInitializer : Placed root (readInitializer scope json pointer) :=
  (placed_readKind place).bind fun _ _ => placed_readLiteralOf place inside _

theorem placed_readName : Placed root (readName scope json pointer) := by
  rw [readName.eq_def]
  split
  · exact failsOnly_ok _
  · refine (placed_readKind place).bind fun _ _ => ?_
    split
    · refine (placed_displayField place inside).bind fun _ _ => ?_
      exact (placed_readLocation place).bind fun _ _ => failsOnly_ok _
    · exact placed_fail rfl place

end Shown

end Own

/-! ### Faults inside -/

/-- The faults of a reader have places if it is called where it should be. -/
def Places {α : Type} (root : Json) (read : Json → Pointer → Except Error α) : Prop :=
  ∀ pointer json, Stands root pointer json → Placed root (read json pointer)

section Parts

variable {α : Type} {read : Json → Pointer → Except Error α}

theorem placed_readEach {items : List Json} {position : Nat}
    (h : ∀ index item, items[index]? = some item →
      Placed root (read item (pointer.index (position + index)))) :
    Placed root (readEach read pointer position items) := by
  induction items generalizing position with
  | nil => exact failsOnly_ok _
  | cons item rest ih =>
      refine (h 0 item rfl).bind fun _ _ => FailsOnly.bind ?_ fun _ _ => failsOnly_ok _
      refine ih fun index item' hitem => ?_
      rw [Nat.add_assoc, Nat.add_comm 1]
      exact h (index + 1) item' hitem

variable (stands : Stands root pointer json) (plain : '/' ∉ key.toList)

include stands plain

theorem placed_readAll (h : ∀ position item, Stands root ((pointer.field key).index position) item →
      Placed root (read item ((pointer.field key).index position))) :
    Placed root (readAll read json key pointer) := by
  refine (placed_readList (.value stands)).bind fun items hitems => ?_
  obtain ⟨-, rfl⟩ | harray := readList_eq_ok_iff.mp hitems
  · exact failsOnly_ok _
  · refine placed_readEach fun index item hitem => ?_
    rw [Nat.zero_add]
    exact h index item ((stands.field harray plain).index hitem)

theorem Places.all (h : Places root read) : Placed root (readAll read json key pointer) :=
  placed_readAll stands plain fun _ _ => h _ _

theorem Places.optional (h : Places root read) :
    Placed root (readOptional read json key pointer) := by
  rw [readOptional]
  split
  · exact failsOnly_ok _
  · exact failsOnly_ok _
  · next value _ hvalue => exact (h _ _ (stands.field hvalue plain)).map _

theorem Places.required (h : Places root read) {missing : Problem}
    (formal : missing.isFormal) :
    Placed root (readRequired read missing json key pointer) := by
  rw [readRequired]
  split
  · next value hvalue => exact h _ _ (stands.field hvalue plain)
  · exact placed_fail formal (.value stands)

end Parts

theorem places_literal : Places root (readLiteral scope) :=
  fun _ _ stands => placed_readLiteral (.value stands) stands.hasLongInteger

theorem places_initializer : Places root (readInitializer scope) :=
  fun _ _ stands => placed_readInitializer (.value stands) stands.hasLongInteger

theorem places_name : Places root (readName scope) :=
  fun _ _ stands => placed_readName (.value stands) stands.hasLongInteger

theorem placed_readMemberName {position : Nat}
    (stands : Stands root ((pointer.field "members").index position) json) :
    Placed root (readMemberName scope json ((pointer.field "members").index position)) := by
  rw [readMemberName]
  cases hname : json.get? "name" with
  | none => exact placed_readName (.name stands hname) fun hlong => by cases hlong
  | some value => exact places_name _ _ (stands.field hname (by decide))

section Readers

variable {reader : TypeReader} (htype : Places root reader)

include htype

theorem placed_readIndex {location : Location} (stands : Stands root pointer json) :
    Placed root (readIndex scope reader json pointer location) := by
  refine (placed_readList (.value stands)).bind fun parameters hparameters => ?_
  cases parameters with
  | nil => exact (htype.optional stands (by decide)).bind fun _ _ => failsOnly_ok _
  | cons parameter rest =>
      obtain ⟨-, hnil⟩ | harray := readList_eq_ok_iff.mp hparameters
      · cases hnil
      have inside : Stands root ((pointer.field "parameters").index 0) parameter :=
        (stands.field harray (by decide)).index rfl
      refine (placed_requireObject (.value inside)).bind fun _ _ => ?_
      refine (placed_displayField (.value inside) inside.hasLongInteger).bind fun _ _ => ?_
      refine (htype.optional inside (by decide)).bind fun _ _ => ?_
      exact (htype.optional stands (by decide)).bind fun _ _ => failsOnly_ok _

theorem placed_readMember {position : Nat}
    (stands : Stands root ((pointer.field "members").index position) json) :
    Placed root (readMember scope reader json ((pointer.field "members").index position)) := by
  refine (placed_readKind (.value stands)).bind fun kind _ => ?_
  refine (placed_readLocation (.value stands)).bind fun location _ => ?_
  split_ifs
  · refine (placed_readMemberName stands).bind fun _ _ => ?_
    exact (htype.optional stands (by decide)).bind fun _ _ => failsOnly_ok _
  · exact placed_readIndex htype stands
  · exact (places_name.optional stands (by decide)).bind fun _ _ => failsOnly_ok _
  · exact placed_fail rfl (.value stands)

theorem placed_readMembers (stands : Stands root pointer json) :
    Placed root (readAll (readMember scope reader) json "members" pointer) :=
  placed_readAll stands (by decide) fun _ _ => placed_readMember htype

theorem Places.typeStep : Places root (readTypeStep scope reader) := by
  intro pointer json stands
  refine (placed_readKind (.value stands)).bind fun kind _ => ?_
  refine (placed_readLocation (.value stands)).bind fun location _ => ?_
  split
  · exact failsOnly_ok _
  split
  · exact (places_literal.required stands (by decide) rfl).map _
  · exact (htype.required stands (by decide) rfl).map _
  · exact (htype.all stands (by decide)).map _
  · exact (htype.all stands (by decide)).map _
  · exact (htype.required stands (by decide) rfl).map _
  · exact (htype.all stands (by decide)).map _
  · exact (placed_readMembers htype stands).map _
  · refine (placed_readString (.value stands)).bind fun _ _ => ?_
    exact (htype.all stands (by decide)).bind fun _ _ => failsOnly_ok _
  · exact failsOnly_ok _

theorem Places.base : Places root (readBase reader) := by
  intro pointer json stands
  refine (htype _ _ stands).bind fun type _ => ?_
  split
  · exact failsOnly_ok _
  · exact placed_fail rfl (.value stands)

theorem Places.declaration : Places root (readDeclarationWith scope reader) := by
  intro pointer json stands
  refine (placed_readKind (.value stands)).bind fun kind _ => ?_
  refine (placed_readString (.value stands)).bind fun name _ => ?_
  refine (placed_readLocation (.value stands)).bind fun location _ => ?_
  split
  · refine (placed_readAll stands (by decide) fun position item inside => ?_).map _
    refine (placed_requireObject (.value inside)).bind fun _ _ => ?_
    refine (placed_readMemberName inside).bind fun _ _ => ?_
    refine (places_initializer.optional inside (by decide)).bind fun _ _ => ?_
    exact (placed_readLocation (.value inside)).bind fun _ _ => failsOnly_ok _
  · refine (htype.base.all stands (by decide)).bind fun _ _ => ?_
    exact (placed_readMembers htype stands).bind fun _ _ => failsOnly_ok _
  · exact (htype.required stands (by decide) rfl).map _
  · exact failsOnly_ok _

theorem Places.parameter : Places root (readParameter scope reader) := by
  intro pointer json stands
  refine (placed_requireObject (.value stands)).bind fun _ _ => ?_
  refine (placed_readString (.value stands)).bind fun _ _ => ?_
  refine (htype.optional stands (by decide)).bind fun _ _ => ?_
  exact (placed_readLocation (.value stands)).bind fun _ _ => failsOnly_ok _

theorem Places.signature : Places root (readSignatureWith scope reader) := by
  intro pointer json stands
  refine (placed_requireObject (.value stands)).bind fun _ _ => ?_
  refine (htype.parameter.all stands (by decide)).bind fun _ _ => ?_
  refine (placed_readString (.value stands)).bind fun _ _ => ?_
  refine (htype.optional stands (by decide)).bind fun _ _ => ?_
  exact (placed_readLocation (.value stands)).bind fun _ _ => failsOnly_ok _

end Readers

theorem places_type (budget : Nat) : Places root (readType scope budget) := by
  induction budget with
  | zero =>
      exact fun pointer _ _ =>
        failsOnly_error ⟨fun hdeep => absurd rfl hdeep, fun hlong => by cases hlong⟩
  | succ budget ih => exact ih.typeStep

theorem Places.atOutermost {α : Type} {read : Json → Pointer → Except Error α}
    (h : Places root read) : Places root (atOutermost read) := by
  intro pointer json stands
  rw [Format.atOutermost]
  cases hread : read json pointer with
  | ok a => exact failsOnly_ok a
  | error error =>
      refine failsOnly_error ?_
      dsimp only
      split_ifs
      · exact ⟨fun hdeep => absurd rfl hdeep, fun hlong => by cases hlong⟩
      · exact h pointer json stands error hread

/-- The faults of a document have their places in it. -/
theorem placed_readDocumentWithin (budget : Nat) :
    Placed root (readDocumentWithin scope budget root) := by
  have stands := stands_root root
  have htype : Places root (readType scope budget) := places_type budget
  rw [readDocumentWithin]
  split
  · exact (placed_fail rfl (.value stands)).bind fun _ h => absurd h fail_ne_ok
  · refine (htype.declaration.atOutermost.all stands (by decide)).bind fun _ _ => ?_
    exact (htype.signature.atOutermost.all stands (by decide)).bind fun _ _ => failsOnly_ok _

/-- The text of the pointer to a place leads there as well. -/
theorem IsPlace.followPath? (h : IsPlace root pointer) :
    (∃ value, root.followPath? pointer.render = some value) ∨
      ∃ place position member, root.followPath? (place ++ "/members/" ++ toString position) =
          some member ∧ member.get? "name" = none ∧
        pointer.render = place ++ "/members/" ++ toString (position : Nat) ++ "/name" := by
  cases h with
  | value stands => exact .inl ⟨_, stands.followPath?⟩
  | @name place position member stands lacks =>
      have hplace : ((place.field "members").index position).render =
          place.render ++ "/members/" ++ toString position := by
        have htext : "/members/" = "/" ++ "members" ++ "/" := by decide
        rw [Pointer.render_index, Pointer.render_field, htext]
        simp only [String.append_assoc]
      refine .inr ⟨place.render, position, member, ?_, lacks, ?_⟩
      · rw [← hplace]
        exact stands.followPath?
      · have htext : "/name" = "/" ++ "name" := by decide
        rw [Pointer.render_field, hplace, htext]
        simp only [String.append_assoc]

/-- **Paths lead to what they describe.** The path of every node of a document leads to a value of
the JSON document, and reading that value again with that path gives the node. The path of a fault
leads to a value as well, or to the name that a member lacks. -/
theorem paths_lead_to_sources (limits : Limits) (reader : DocumentReader) (json : Json)
    (given : Option String) :
    let result := reader.read limits json given
    (∀ document fragment, result.1 = .ok document → document.Holds fragment →
      ∃ location value, fragment.location = some location ∧
        json.followPath? location.pointer.render = some value ∧
        fragment.IsReadFrom ⟨result.2.file, limits.showing⟩ limits.parsing value
          location.pointer) ∧
    ∀ error, result.1 = .error error → error.problem ≠ .nestedTooDeeply →
      (∃ value, json.followPath? error.pointer.render = some value) ∨
        ∃ place position member, json.followPath? (place ++ "/members/" ++ toString position) =
            some member ∧ member.get? "name" = none ∧
          error.pointer.render = place ++ "/members/" ++ toString (position : Nat) ++ "/name" := by
  constructor
  · intro document fragment hread hholds
    obtain ⟨location, value, hlocation, stands, hagain⟩ := found_of_readDocumentWithin hread hholds
    exact ⟨location, value, hlocation, stands.followPath?, hagain⟩
  · intro error hread hdeep
    exact ((placed_readDocumentWithin limits.parsing error hread).place hdeep).followPath?

/-- A function with a type inside a type. -/
def listing : Json :=
  .object [("functions", .array [.object [("name", .text "list"), ("returnType",
    .object [("kind", .text "ArrayType"),
      ("elementType", .object [("kind", .text "StringKeyword"),
        ("loc", .object [("line", .ofInt 7)])])])]])]

/-- An enum whose member has no name. -/
def nameless : Json :=
  .object [("declarations", .array [.object [("kind", .text "EnumDeclaration"),
    ("name", .text "Shelf"), ("members", .array [.object []])]])]

theorem paths_lead_to_sources_listing :
    let limits : Limits := .usual
    (∃ value, listing.followPath? "#/functions/0/returnType/elementType" = some value ∧
      readType ⟨"list.ts", limits.showing⟩ limits.parsing value ⟨"#", [.field "functions", .index 0,
        .field "returnType", .field "elementType"]⟩ = .ok (.keyword (some ⟨"list.ts", 7, 0,
          ⟨"#", [.field "functions", .index 0, .field "returnType", .field "elementType"]⟩⟩)
          .string)) ∧
      ((∃ value, nameless.followPath? "#/declarations/0/members/0/name" = some value) ∨
        ∃ place position member,
          nameless.followPath? (place ++ "/members/" ++ toString (position : Nat)) = some member ∧
            member.get? "name" = none ∧
            "#/declarations/0/members/0/name" =
              place ++ "/members/" ++ toString position ++ "/name") := by
  intro limits
  let returned : Pointer := ⟨"#", [.field "functions", .index 0, .field "returnType"]⟩
  let text : TypeExpr := .keyword (some ⟨"list.ts", 7, 0, returned.field "elementType"⟩) .string
  let list : TypeExpr := .array (some ⟨"list.ts", 0, 0, returned⟩) text
  let signature : Signature :=
    ⟨some ⟨"list.ts", 0, 0, ⟨"#", [.field "functions", .index 0]⟩⟩, "list", [], some list⟩
  constructor
  · have hread : (DocumentReader.read limits ⟨""⟩ listing (some "list.ts")).1 =
        .ok ⟨[], [signature], "list.ts"⟩ := by rfl
    have hholds : (⟨[], [signature], "list.ts"⟩ : Document).Holds (.type text) := by
      refine .inr ⟨signature, List.mem_singleton_self _, ?_⟩
      have hlist : Fragment.type list ∈ (Fragment.signature signature).parts :=
        List.mem_singleton_self _
      exact .tail (.single hlist) (List.mem_singleton_self _)
    obtain ⟨location, value, hlocation, hvalue, hagain⟩ :=
      (paths_lead_to_sources limits ⟨""⟩ listing (some "list.ts")).1 _ _ hread hholds
    obtain rfl := Option.some.inj hlocation
    exact ⟨value, hvalue, hagain⟩
  · have hread : (DocumentReader.read limits ⟨""⟩ nameless none).1 = .error ⟨.notObject, ⟨"#",
        [.field "declarations", .index 0, .field "members", .index 0, .field "name"]⟩⟩ := by rfl
    exact (paths_lead_to_sources limits ⟨""⟩ nameless none).2 _ hread (by decide)

end TypeSchema.Format
