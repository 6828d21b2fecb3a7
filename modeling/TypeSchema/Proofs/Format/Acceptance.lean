import TypeSchema.Format.Grammar
import TypeSchema.Limits
import TypeSchema.Proofs.Format.Fault
import TypeSchema.Proofs.Format.Rules

/-!
# Reading accepts the grammar

A value that is read as a document is one by the grammar, and whatever it shows has a text.
Conversely, such a document is read unless it is nested too deeply, and then the JSON value is as
deep as the budget or as what can be shown. Both directions follow the structure of the nodes: the
first one the budget of the reader, the second one the grammar.

The grammar of the format says nothing on the integers in a value that is shown. A document by that
grammar can still be refused for one, and then not as a document without the form of one.
-/

namespace TypeSchema.Format

variable {scope : Scope} {json value : Json} {pointer : Pointer} {field kind : String}

/-! ### Fields -/

theorem readList_eq_ok_iff_listed? {items : List Json} :
    readList json field pointer = .ok items ↔ json.listed? field = some items := by
  rw [readList, Json.listed?]
  cases json.get? field with
  | none => simp
  | some value => cases value <;> simp [fail_ne_ok]

theorem given?_eq_some_iff :
    json.given? field = some value ↔ json.get? field = some value ∧ value ≠ .null := by
  rw [Json.given?]
  cases json.get? field with
  | none => simp
  | some given =>
      cases given with
      | null =>
          simp only [reduceCtorEq, Option.some.injEq, false_iff, not_and, not_not]
          exact fun h => h.symm
      | _ =>
          simp only [Option.some.injEq, iff_self_and]
          rintro rfl h
          cases h

theorem hasKind_of_read (h : readKind json pointer = .ok kind) : HasKind json kind :=
  readKind_eq_ok_iff.mp h

theorem HasKind.unique {other : String} (h : HasKind json kind) (hother : HasKind json other) :
    kind = other := by
  have hsame := h.1.symm.trans hother.1
  rw [Option.some.injEq, Json.text.injEq] at hsame
  exact hsame

/-! ### What is read conforms -/

/-- Whatever the reader reads satisfies the condition. -/
def Vouches {α : Type} (read : Json → Pointer → Except Error α) (P : Json → Prop) : Prop :=
  ∀ json pointer a, read json pointer = .ok a → P json

section Parts

variable {α : Type} {read : Json → Pointer → Except Error α} {P : Json → Prop}
  (h : Vouches read P)

include h

theorem Vouches.each {items : List Json} {found : List α} {position : Nat}
    (hread : readEach read pointer position items = .ok found) : ∀ item ∈ items, P item := by
  induction items generalizing position found with
  | nil => exact List.forall_mem_nil _
  | cons item rest ih =>
      obtain ⟨first, hfirst, hread⟩ := except_bind_eq_ok_iff.mp hread
      obtain ⟨others, hothers, -⟩ := except_bind_eq_ok_iff.mp hread
      exact List.forall_mem_cons.mpr ⟨h _ _ _ hfirst, ih hothers⟩

theorem Vouches.all {found : List α} (hread : readAll read json field pointer = .ok found) :
    HasAll P json field := by
  obtain ⟨items, hitems, heach⟩ := readAll_eq_ok_iff.mp hread
  exact ⟨items, readList_eq_ok_iff_listed?.mp hitems, h.each heach⟩

theorem Vouches.optional {found : Option α}
    (hread : readOptional read json field pointer = .ok found) : MayHave P json field := by
  intro value hvalue
  obtain ⟨hget, hnull⟩ := given?_eq_some_iff.mp hvalue
  obtain ⟨habsent | habsent, -⟩ | ⟨given, a, hgiven, -, ha, -⟩ := readOptional_eq_ok_iff.mp hread
  · cases hget.symm.trans habsent
  · exact absurd (Option.some.inj (hget.symm.trans habsent)) hnull
  · obtain rfl := Option.some.inj (hget.symm.trans hgiven)
    exact h _ _ _ ha

theorem Vouches.required {missing : Problem} {a : α}
    (hread : readRequired read missing json field pointer = .ok a) : Has P json field := by
  obtain ⟨value, hvalue, ha⟩ := readRequired_eq_ok_iff.mp hread
  exact ⟨value, hvalue, h _ _ _ ha⟩

end Parts

theorem isInteger_of_readCoordinate {n : Int} (h : readCoordinate json field pointer = .ok n) :
    ∀ value, json.get? field = some value → ∃ n, value = .ofInt n := by
  intro value hvalue
  rw [readCoordinate, hvalue] at h
  split at h
  · next hnone => cases hnone
  · next n hn =>
      obtain rfl := Option.some.inj hn
      exact ⟨n, rfl⟩
  · exact absurd h fail_ne_ok

theorem isText_of_readFile {name : String} (h : readFile scope.file json pointer = .ok name) :
    ∀ value, json.get? "file" = some value → ∃ name, value = .text name := by
  intro value hvalue
  rw [readFile, hvalue] at h
  split at h
  · next hnone => cases hnone
  · next name hname =>
      obtain rfl := Option.some.inj hname
      exact ⟨name, rfl⟩
  · exact absurd h fail_ne_ok

theorem vouches_location : Vouches (readLocation scope) IsLocated := by
  intro json pointer location h loc hloc
  obtain ⟨hget, hnull⟩ := given?_eq_some_iff.mp hloc
  cases readLocation_eq_ok_iff.mp h with
  | unsaid unsaid =>
      obtain hnone | hsome := unsaid
      · cases hget.symm.trans hnone
      · exact absurd (Option.some.inj (hget.symm.trans hsome)) hnull
  | said said named lined columned =>
      obtain rfl := Option.some.inj (hget.symm.trans said)
      exact ⟨rfl, isText_of_readFile named, isInteger_of_readCoordinate lined,
        isInteger_of_readCoordinate columned⟩

theorem isShowable_of_display {shown : String} (h : json.display scope.showing = .ok shown) :
    IsShowable json := by
  obtain rfl | hstop := Json.stop?_of_display_eq_ok h
  · exact trivial
  · cases json with
    | text s => exact trivial
    | _ => exact Json.hasLongInteger_eq_false_of_stop? hstop

theorem hasKind_of_reads_reference {budget : Nat} {location : Option Location} {name : String}
    {arguments : List TypeExpr}
    (h : readType scope budget json pointer = .ok (.reference location name arguments)) :
    HasKind json "TypeReference" := by
  cases budget with
  | zero => exact absurd h fail_ne_ok
  | succ budget =>
      obtain ⟨kind, location, hkind, -, hrule⟩ := readTypeStep_eq_ok_iff.mp h
      cases hrule with
      | reference named parts => exact hasKind_of_read hkind

theorem Vouches.atOutermost {α : Type} {read : Json → Pointer → Except Error α} {P : Json → Prop}
    (h : Vouches read P) : Vouches (atOutermost read) P :=
  fun _ _ _ hread => h _ _ _ (atOutermost_eq_ok_iff.mp hread)

section Showable

variable {shown : Json → Prop} (hshown : ∀ value, IsShowable value → shown value)

include hshown

theorem shows_of_displayField {text : String}
    (h : displayField scope json field pointer = .ok text) : Shows shown json field := by
  intro value hvalue
  refine hshown value ?_
  rw [displayField, hvalue] at h
  dsimp only at h
  cases hdisplay : value.display scope.showing with
  | ok text => exact isShowable_of_display hdisplay
  | error excess =>
      rw [hdisplay] at h
      cases h

theorem vouches_literalOf (kind : LiteralKind) :
    Vouches (readLiteralOf scope kind) (IsLiteralOf shown kind) := by
  intro json pointer literal h
  obtain ⟨text, location, htext, hlocation, -⟩ := readLiteralOf_eq_ok_iff.mp h
  rw [readLiteralText] at htext
  refine ⟨fun hvalue => ⟨text, ?_⟩, fun hvalue => ?_, vouches_location _ _ _ hlocation⟩
  · rw [if_pos hvalue] at htext
    exact readString_eq_ok_iff.mp htext
  · rw [if_neg hvalue] at htext
    exact shows_of_displayField hshown htext

theorem vouches_literal : Vouches (readLiteral scope) (IsLiteral shown) := by
  intro json pointer literal h
  obtain ⟨kind, literalKind, hkind, hlookup, hliteral⟩ := readLiteral_eq_ok_iff.mp h
  exact ⟨kind, literalKind, hasKind_of_read hkind, hlookup,
    vouches_literalOf hshown _ _ _ _ hliteral⟩

theorem vouches_initializer : Vouches (readInitializer scope) (IsInitializer shown) := by
  intro json pointer literal h
  obtain ⟨kind, hkind, hliteral⟩ := readInitializer_eq_ok_iff.mp h
  exact ⟨kind, hasKind_of_read hkind, vouches_literalOf hshown _ _ _ _ hliteral⟩

theorem vouches_name : Vouches (readName scope) (IsName shown) := by
  intro json pointer name h
  cases readName_eq_ok_iff.mp h with
  | short short => exact .short short
  | node told known text located =>
      exact .node (hasKind_of_read told) (List.mem_map_of_mem (mem_of_lookup known))
        (shows_of_displayField hshown text) (vouches_location _ _ _ located)

theorem has_of_readMemberName {name : PropertyName}
    (h : readMemberName scope json pointer = .ok name) : Has (IsName shown) json "name" := by
  rw [readMemberName] at h
  cases hname : json.get? "name" with
  | some value =>
      rw [hname] at h
      exact ⟨value, hname, vouches_name hshown _ _ _ h⟩
  | none =>
      rw [hname] at h
      cases vouches_name hshown _ _ _ h with
      | short short => cases short
      | node told known shows located => cases told.1

section Readers

variable {reader : TypeReader} (htype : Vouches reader (IsType shown))

include htype

theorem Vouches.member : Vouches (readMember scope reader) (IsMember shown) := by
  intro json pointer member h
  cases readMember_eq_ok_iff.mp h with
  | property told located named typed =>
      exact .property (hasKind_of_read told) (vouches_location _ _ _ located)
        (has_of_readMemberName hshown named) (htype.optional typed)
  | @index _ parameters _ _ _ _ told located listed first object text keyed typed =>
      have hfirst : ∀ parameter ∈ parameters.head?,
          parameters.head?.getD (.object []) = parameter := by
        intro parameter hparameter
        rw [Option.mem_def.mp hparameter]
        rfl
      refine .index (hasKind_of_read told) (vouches_location _ _ _ located)
        (readList_eq_ok_iff_listed?.mp listed) ?_ ?_ ?_ (htype.optional typed)
      · intro parameter hparameter
        rw [← hfirst parameter hparameter, first]
        exact object
      · intro parameter hparameter
        rw [← hfirst parameter hparameter, first]
        exact shows_of_displayField hshown text
      · intro parameter hparameter
        rw [← hfirst parameter hparameter, first]
        exact htype.optional keyed
  | other told known located named =>
      exact .other (hasKind_of_read told) (vouches_location _ _ _ located) known
        ((vouches_name hshown).optional named)

theorem Vouches.typeStep : Vouches (readTypeStep scope reader) (IsType shown) := by
  intro json pointer type h
  obtain ⟨kind, location, hkind, hlocation, hrule⟩ := readTypeStep_eq_ok_iff.mp h
  have told := hasKind_of_read hkind
  have located := vouches_location _ _ _ hlocation
  cases hrule with
  | keyword known =>
      refine .plain told located fun hmem => ?_
      have hkeyword : kind ∈ keywordKinds.map Prod.fst := List.mem_map_of_mem (mem_of_lookup known)
      exact (by decide : ∀ kind ∈ keywordKinds.map Prod.fst, kind ∉ typeKinds) kind hkeyword hmem
  | literal part => exact .literal told located ((vouches_literal hshown).required part)
  | array part | parenthesized part =>
      obtain ⟨inner, hinner, hpart⟩ := htype.required part
      exact .wrapper told located (by decide) hinner hpart
  | union parts | intersection parts | tuple parts =>
      obtain ⟨items, hitems, hparts⟩ := htype.all parts
      exact .list told located (by decide) hitems hparts
  | object parts =>
      obtain ⟨items, hitems, hparts⟩ := (htype.member hshown).all parts
      exact .object told located hitems hparts
  | reference named parts =>
      obtain ⟨items, hitems, hparts⟩ := htype.all parts
      exact .reference told located ⟨_, readString_eq_ok_iff.mp named⟩ hitems hparts
  | unsupported unknown other => exact .plain told located other

end Readers

theorem vouches_type (budget : Nat) : Vouches (readType scope budget) (IsType shown) := by
  induction budget with
  | zero => exact fun _ _ _ h => absurd h fail_ne_ok
  | succ budget ih => exact ih.typeStep hshown

theorem vouches_member (budget : Nat) :
    Vouches (readMember scope (readType scope budget)) (IsMember shown) :=
  (vouches_type hshown budget).member hshown

theorem vouches_base (budget : Nat) :
    Vouches (readBase (readType scope budget)) (IsBase shown) := by
  intro json pointer base h
  have hread := readBase_eq_ok_iff.mp h
  exact ⟨hasKind_of_reads_reference hread, vouches_type hshown budget _ _ _ hread⟩

theorem vouches_enumMember (enumName : String) :
    Vouches (readEnumMember scope enumName) (IsEnumMember shown) := by
  intro json pointer member h
  obtain ⟨name, initializer, location, hobject, hname, hinitializer, hlocation, -⟩ :=
    readEnumMember_eq_ok_iff.mp h
  exact ⟨hobject, has_of_readMemberName hshown hname,
    (vouches_initializer hshown).optional hinitializer, vouches_location _ _ _ hlocation⟩

theorem vouches_declaration (budget : Nat) :
    Vouches (readDeclaration scope budget) (IsDeclaration shown) := by
  intro json pointer declaration h
  obtain ⟨kind, name, location, hkind, hname, hlocation, hrule⟩ :=
    readDeclarationWith_eq_ok_iff.mp h
  have told := hasKind_of_read hkind
  have named : HasText json "name" := ⟨name, readString_eq_ok_iff.mp hname⟩
  have located := vouches_location _ _ _ hlocation
  cases hrule with
  | enum parts => exact .enum told named located ((vouches_enumMember hshown name).all parts)
  | interface extended parts =>
      exact .interface told named located ((vouches_base hshown budget).all extended)
        ((vouches_member hshown budget).all parts)
  | typeAlias part =>
      exact .typeAlias told named located ((vouches_type hshown budget).required part)
  | other other => exact .other told named located other

theorem vouches_parameter (budget : Nat) :
    Vouches (readParameter scope (readType scope budget)) (IsParameter shown) := by
  intro json pointer parameter h
  obtain ⟨name, type, location, hobject, hname, htype, hlocation, -⟩ :=
    readParameter_eq_ok_iff.mp h
  exact ⟨hobject, ⟨name, readString_eq_ok_iff.mp hname⟩,
    (vouches_type hshown budget).optional htype, vouches_location _ _ _ hlocation⟩

theorem vouches_signature (budget : Nat) :
    Vouches (readSignature scope budget) (IsSignature shown) := by
  intro json pointer signature h
  obtain ⟨parameters, name, returnType, location, hobject, hparameters, hname, hreturn, hlocation,
    -⟩ := readSignatureWith_eq_ok_iff.mp h
  exact ⟨hobject, ⟨name, readString_eq_ok_iff.mp hname⟩,
    (vouches_parameter hshown budget).all hparameters,
    (vouches_type hshown budget).optional hreturn, vouches_location _ _ _ hlocation⟩

/-- What is read as a document is one by the grammar. -/
theorem isDocument_of_readDocumentWithin {budget : Nat} {document : Document}
    (h : readDocumentWithin scope budget json = .ok document) :
    IsDocument shown json := by
  obtain ⟨declarations, functions, hobject, hdeclarations, hfunctions, -⟩ :=
    readDocumentWithin_eq_ok_iff.mp h
  exact ⟨hobject, (vouches_declaration hshown budget).atOutermost.all hdeclarations,
    (vouches_signature hshown budget).atOutermost.all hfunctions⟩

end Showable

/-! ### What hinders -/

theorem depth_lt_of_listed? {items : List Json} (h : json.listed? field = some items) :
    ∀ item ∈ items, item.depth < json.depth := by
  intro item hitem
  obtain ⟨-, rfl⟩ | harray := readList_eq_ok_iff.mp
    (readList_eq_ok_iff_listed?.mpr h : readList json field .root = .ok items)
  · cases hitem
  · exact Nat.lt_trans (Nat.lt_succ_of_le (Json.depth_le_depthOfItems hitem))
      (Json.depth_lt_of_get? harray)

theorem depth_lt_of_given? (h : json.given? field = some value) : value.depth < json.depth :=
  Json.depth_lt_of_get? (given?_eq_some_iff.mp h).1

/-- What can keep a value of the grammar from being read: it is as deep as the budget or as what can
be shown, or the grammar admits values without a text where a value is shown. -/
inductive Hinders (scope : Scope) (shown : Json → Prop) (budget : Nat) (json : Json) :
    Error → Prop
  | deep {pointer : Pointer} (deep : budget ≤ json.depth ∨ scope.showing ≤ json.depth) :
      Hinders scope shown budget json ⟨.nestedTooDeeply, pointer⟩
  | long {pointer : Pointer} (long : ¬ ∀ value, shown value → IsShowable value) :
      Hinders scope shown budget json ⟨.integerTooLong, pointer⟩

section Hindrance

variable {shown : Json → Prop} {budget : Nat} (h : value.depth < json.depth)

include h

theorem Hinders.outward :
    ∀ error, Hinders scope shown budget value error →
      Hinders scope shown (budget + 1) json error := by
  intro error hhinders
  cases hhinders with
  | deep deep =>
      refine .deep (deep.imp (fun hbudget => ?_) fun hshowing => ?_)
      · exact Nat.lt_of_le_of_lt hbudget h
      · exact Nat.le_trans hshowing (Nat.le_of_lt h)
  | long long => exact .long long

theorem Hinders.around :
    ∀ error, Hinders scope shown budget value error → Hinders scope shown budget json error := by
  intro error hhinders
  cases hhinders with
  | deep deep =>
      have hle := Nat.le_of_lt h
      exact .deep (deep.imp (Nat.le_trans · hle) (Nat.le_trans · hle))
  | long long => exact .long long

end Hindrance

/-! ### What conforms is read -/

section Leaves

variable {P : Error → Prop} {shown : Json → Prop} {budget : Nat}

theorem HasText.reads (h : HasText json field) : FailsOnly P (readString json field pointer) := by
  obtain ⟨text, htext⟩ := h
  rw [readString_eq_ok_iff.mpr htext]
  exact failsOnly_ok text

theorem HasKind.reads (h : HasKind json kind) : readKind json pointer = .ok kind :=
  readKind_eq_ok_iff.mpr h

theorem reads_requireObject (h : json.isObject) : FailsOnly P (requireObject json pointer) := by
  rw [requireObject_eq_ok_iff.mpr h]
  exact failsOnly_ok ()

theorem reads_coordinate (h : ∀ value, json.get? field = some value → ∃ n, value = .ofInt n) :
    FailsOnly P (readCoordinate json field pointer) := by
  rw [readCoordinate]
  split
  · exact failsOnly_ok 0
  · exact failsOnly_ok _
  · next value hno hvalue =>
      obtain ⟨n, rfl⟩ := h value hvalue
      exact absurd rfl (hno n)

theorem reads_file (h : ∀ value, json.get? "file" = some value → ∃ name, value = .text name) :
    FailsOnly P (readFile scope.file json pointer) := by
  rw [readFile]
  split
  · exact failsOnly_ok scope.file
  · exact failsOnly_ok _
  · next value hno hvalue =>
      obtain ⟨name, rfl⟩ := h value hvalue
      exact absurd rfl (hno name)

theorem IsLocated.reads (h : IsLocated json) : FailsOnly P (readLocation scope json pointer) := by
  cases hloc : json.get? "loc" with
  | none =>
      rw [readLocation, hloc]
      exact failsOnly_ok _
  | some loc =>
      by_cases hnull : loc = .null
      · subst hnull
        rw [readLocation, hloc]
        exact failsOnly_ok _
      have hlocation := h loc (given?_eq_some_iff.mpr ⟨hloc, hnull⟩)
      cases loc with
      | object fields =>
          rw [readLocation_of_object hloc]
          refine (reads_file hlocation.file).bind fun _ _ => ?_
          refine (reads_coordinate hlocation.line).bind fun _ _ => ?_
          exact (reads_coordinate hlocation.column).bind fun _ _ => failsOnly_ok _
      | _ => cases hlocation.object

theorem Shows.reads (h : Shows shown json field) :
    FailsOnly (Hinders scope shown budget json) (displayField scope json field pointer) := by
  rw [displayField]
  cases hget : json.get? field with
  | none => exact failsOnly_ok _
  | some value =>
      dsimp only
      cases hdisplay : value.display scope.showing with
      | ok text => exact failsOnly_ok _
      | error excess =>
          have hstop := Json.stop?_of_display_eq_error hdisplay
          refine failsOnly_error ?_
          cases excess with
          | tooDeep =>
              have hdepth := Json.le_depth_of_stop? hstop
              exact .deep (.inr (Nat.le_of_lt (Nat.lt_trans (Nat.lt_of_succ_le hdepth)
                (Json.depth_lt_of_get? hget))))
          | integerTooLong =>
              refine .long fun hall => ?_
              have hlong := Json.hasLongInteger_of_stop? hstop
              have hshowable := hall value (h value hget)
              cases value with
              | text s => cases hlong
              | _ => exact Bool.false_ne_true (hshowable.symm.trans hlong)

theorem IsLiteralOf.reads {literalKind : LiteralKind} (h : IsLiteralOf shown literalKind json) :
    FailsOnly (Hinders scope shown budget json)
      (readLiteralOf scope literalKind json pointer) := by
  refine FailsOnly.bind ?_ fun _ _ => h.located.reads.bind fun _ _ => failsOnly_ok _
  rw [readLiteralText]
  split_ifs with hvalue
  · exact (h.text hvalue).reads
  · exact (h.shows hvalue).reads

theorem IsLiteral.reads (h : IsLiteral shown json) :
    FailsOnly (Hinders scope shown budget json) (readLiteral scope json pointer) := by
  obtain ⟨kind, literalKind, told, known, hliteral⟩ := h
  refine .bind_of_ok told.reads ?_
  rw [known]
  exact hliteral.reads

theorem IsInitializer.reads (h : IsInitializer shown json) :
    FailsOnly (Hinders scope shown budget json) (readInitializer scope json pointer) := by
  obtain ⟨kind, told, hliteral⟩ := h
  exact .bind_of_ok told.reads hliteral.reads

theorem IsName.reads (h : IsName shown json) :
    FailsOnly (Hinders scope shown budget json) (readName scope json pointer) := by
  cases h with
  | short short =>
      rw [short]
      exact failsOnly_ok _
  | @node kind told known shows located =>
      rw [readName.eq_def]
      split
      · exact failsOnly_ok _
      · refine .bind_of_ok told.reads ?_
        split
        · exact shows.reads.bind fun _ _ => located.reads.bind fun _ _ => failsOnly_ok _
        · next hnone => exact absurd known (not_mem_of_lookup hnone)

theorem Has.readsMemberName (h : Has (IsName shown) json "name") :
    FailsOnly (Hinders scope shown budget json) (readMemberName scope json pointer) := by
  obtain ⟨value, hvalue, hname⟩ := h
  rw [readMemberName, hvalue]
  exact hname.reads.mono (Hinders.around (Json.depth_lt_of_get? hvalue))

end Leaves

section Parts

variable {α : Type} {read : Json → Pointer → Except Error α} {P : Error → Prop} {items : List Json}

theorem reads_each {position : Nat} (h : ∀ item ∈ items, ∀ place, FailsOnly P (read item place)) :
    FailsOnly P (readEach read pointer position items) := by
  induction items generalizing position with
  | nil => exact failsOnly_ok _
  | cons item rest ih =>
      obtain ⟨hitem, hrest⟩ := List.forall_mem_cons.mp h
      exact (hitem _).bind fun _ _ => (ih hrest).bind fun _ _ => failsOnly_ok _

theorem reads_all (has : json.listed? field = some items)
    (h : ∀ item ∈ items, ∀ place, FailsOnly P (read item place)) :
    FailsOnly P (readAll read json field pointer) :=
  .bind_of_ok (readList_eq_ok_iff_listed?.mpr has) (reads_each h)

theorem reads_optional
    (h : ∀ value, json.given? field = some value → ∀ place, FailsOnly P (read value place)) :
    FailsOnly P (readOptional read json field pointer) := by
  rw [readOptional]
  split
  · exact failsOnly_ok _
  · exact failsOnly_ok _
  · next value hnull hvalue => exact (h value (given?_eq_some_iff.mpr ⟨hvalue, hnull⟩) _).map _

theorem reads_required {missing : Problem} (has : json.get? field = some value)
    (h : ∀ place, FailsOnly P (read value place)) :
    FailsOnly P (readRequired read missing json field pointer) := by
  rw [readRequired, has]
  exact h _

end Parts

/-! ### Nodes -/

variable {shown : Json → Prop}

/-- A value of the category is read under any budget unless something hinders. -/
def IsRead (scope : Scope) (shown : Json → Prop) : Category → Json → Prop
  | .type, json => ∀ budget pointer,
    FailsOnly (Hinders scope shown budget json) (readType scope budget json pointer)
  | .member, json => ∀ budget pointer,
    FailsOnly (Hinders scope shown budget json)
      (readMember scope (readType scope budget) json pointer)

theorem isRead_of_step (h : ∀ budget pointer, FailsOnly (Hinders scope shown (budget + 1) json)
    (readTypeStep scope (readType scope budget) json pointer)) :
    IsRead scope shown .type json := by
  intro budget pointer
  cases budget with
  | zero => exact failsOnly_error (.deep (.inl (Nat.zero_le _)))
  | succ budget => exact h budget pointer

/-- **Nodes of the grammar are read**, if the budget allows. -/
theorem IsNode.isRead {category : Category} (h : IsNode shown category json) :
    IsRead scope shown category json := by
  induction h with
  | literal told located has =>
      refine isRead_of_step fun budget pointer => ?_
      refine .bind_of_ok told.reads (located.reads.bind fun _ _ => ?_)
      obtain ⟨value, hvalue, hliteral⟩ := has
      exact (reads_required hvalue fun _ => hliteral.reads.mono
        (Hinders.around (Json.depth_lt_of_get? hvalue))).map _
  | @wrapper json inner kind field told located wraps has part ih =>
      refine isRead_of_step fun budget pointer => ?_
      refine .bind_of_ok told.reads (located.reads.bind fun _ _ => ?_)
      have hinner : ∀ place,
          FailsOnly (Hinders scope shown (budget + 1) json) (readType scope budget inner place) :=
        fun place => (ih budget place).mono (Hinders.outward (Json.depth_lt_of_get? has))
      simp only [wrapperFields, List.mem_cons, Prod.mk.injEq, List.not_mem_nil, or_false] at wraps
      obtain ⟨rfl, rfl⟩ | ⟨rfl, rfl⟩ := wraps
      · exact (reads_required has hinner).map _
      · exact (reads_required has hinner).map _
  | @list json items kind field told located lists has parts ih =>
      refine isRead_of_step fun budget pointer => ?_
      refine .bind_of_ok told.reads (located.reads.bind fun _ _ => ?_)
      have hitems : ∀ item ∈ items, ∀ place,
          FailsOnly (Hinders scope shown (budget + 1) json) (readType scope budget item place) :=
        fun item hitem place =>
          (ih item hitem budget place).mono (Hinders.outward (depth_lt_of_listed? has item hitem))
      simp only [listFields, List.mem_cons, Prod.mk.injEq, List.not_mem_nil, or_false] at lists
      obtain ⟨rfl, rfl⟩ | ⟨rfl, rfl⟩ | ⟨rfl, rfl⟩ := lists
      · exact (reads_all has hitems).map _
      · exact (reads_all has hitems).map _
      · exact (reads_all has hitems).map _
  | object told located has parts ih =>
      refine isRead_of_step fun budget pointer => ?_
      refine .bind_of_ok told.reads (located.reads.bind fun _ _ => ?_)
      exact (reads_all has fun item hitem place => (ih item hitem budget place).mono
        (Hinders.outward (depth_lt_of_listed? has item hitem))).map _
  | reference told located named has parts ih =>
      refine isRead_of_step fun budget pointer => ?_
      refine .bind_of_ok told.reads (located.reads.bind fun _ _ => ?_)
      refine named.reads.bind fun _ _ => ?_
      exact (reads_all has fun item hitem place => (ih item hitem budget place).mono
        (Hinders.outward (depth_lt_of_listed? has item hitem))).bind fun _ _ => failsOnly_ok _
  | plain told located other =>
      refine isRead_of_step fun budget pointer => ?_
      refine .bind_of_ok told.reads (located.reads.bind fun _ _ => ?_)
      split
      · exact failsOnly_ok _
      split
      case h_9 => exact failsOnly_ok _
      all_goals exact absurd (by decide) other
  | property told located named typed ih =>
      intro budget pointer
      refine .bind_of_ok told.reads (located.reads.bind fun _ _ => ?_)
      refine named.readsMemberName.bind fun _ _ => ?_
      exact (reads_optional fun value hvalue place => (ih value hvalue budget place).mono
        (Hinders.around (depth_lt_of_given? hvalue))).bind fun _ _ => failsOnly_ok _
  | @index json parameters told located has object shows keyed typed keyed_ih typed_ih =>
      intro budget pointer
      refine .bind_of_ok told.reads (located.reads.bind fun _ _ => ?_)
      refine .bind_of_ok (readList_eq_ok_iff_listed?.mpr has) ?_
      have htype : FailsOnly (Hinders scope shown budget json)
          (readOptional (readType scope budget) json "type" pointer) :=
        reads_optional fun value hvalue place =>
          (typed_ih value hvalue budget place).mono (Hinders.around (depth_lt_of_given? hvalue))
      cases parameters with
      | nil => exact htype.bind fun _ _ => failsOnly_ok _
      | cons parameter rest =>
          have hparameter : parameter.depth < json.depth :=
            depth_lt_of_listed? has parameter List.mem_cons_self
          refine (reads_requireObject (object parameter rfl)).bind fun _ _ => ?_
          refine ((shows parameter rfl).reads.mono (Hinders.around hparameter)).bind fun _ _ => ?_
          refine FailsOnly.bind ?_ fun _ _ => htype.bind fun _ _ => failsOnly_ok _
          exact reads_optional fun value hvalue place =>
            (keyed_ih parameter rfl value hvalue budget place).mono
              (Hinders.around (Nat.lt_trans (depth_lt_of_given? hvalue) hparameter))
  | @other json kind told located known named =>
      intro budget pointer
      have hproperty : kind ≠ "PropertySignature" := by
        rintro rfl
        exact absurd known (by decide)
      have hindex : kind ≠ "IndexSignature" := by
        rintro rfl
        exact absurd known (by decide)
      refine .bind_of_ok told.reads (located.reads.bind fun _ _ => ?_)
      rw [if_neg hproperty, if_neg hindex, if_pos known]
      exact (reads_optional fun value hvalue place => (named value hvalue).reads.mono
        (Hinders.around (depth_lt_of_given? hvalue))).bind fun _ _ => failsOnly_ok _

/-! ### Declarations, functions and documents -/

section Nodes

variable {budget : Nat}

theorem IsType.reads (h : IsType shown json) :
    FailsOnly (Hinders scope shown budget json) (readType scope budget json pointer) :=
  IsNode.isRead h budget pointer

theorem IsMember.reads (h : IsMember shown json) :
    FailsOnly (Hinders scope shown budget json)
      (readMember scope (readType scope budget) json pointer) :=
  IsNode.isRead h budget pointer

theorem TypeRule.exists_reference {reader : TypeReader} {location : Location} {type : TypeExpr}
    (h : TypeRule scope reader json pointer location kind type) (hkind : kind = "TypeReference") :
    ∃ name arguments, type = .reference (some location) name arguments := by
  cases h with
  | reference named parts => exact ⟨_, _, rfl⟩
  | keyword known =>
      subst hkind
      have hnone : keywordKinds.lookup "TypeReference" = none := by decide
      cases hnone.symm.trans known
  | unsupported unknown other =>
      subst hkind
      exact absurd (by decide) other
  | _ => exact absurd hkind (by decide)

theorem exists_reference_of_reads {type : TypeExpr} (told : HasKind json "TypeReference")
    (h : readType scope budget json pointer = .ok type) :
    ∃ location name arguments, type = .reference location name arguments := by
  cases budget with
  | zero => exact absurd h fail_ne_ok
  | succ budget =>
      obtain ⟨kind, location, hkind, -, hrule⟩ := readTypeStep_eq_ok_iff.mp h
      obtain ⟨name, arguments, rfl⟩ :=
        hrule.exists_reference ((hasKind_of_read hkind).unique told)
      exact ⟨_, name, arguments, rfl⟩

theorem IsBase.reads (h : IsBase shown json) :
    FailsOnly (Hinders scope shown budget json)
      (readBase (readType scope budget) json pointer) := by
  refine h.type.reads.bind fun type htype => ?_
  obtain ⟨location, name, arguments, rfl⟩ := exists_reference_of_reads h.told htype
  exact failsOnly_ok _

theorem IsEnumMember.reads {enumName : String} (h : IsEnumMember shown json) :
    FailsOnly (Hinders scope shown budget json) (readEnumMember scope enumName json pointer) := by
  refine (reads_requireObject h.object).bind fun _ _ => ?_
  refine h.named.readsMemberName.bind fun _ _ => ?_
  refine (reads_optional fun value hvalue _ => (h.initialized value hvalue).reads.mono
    (Hinders.around (depth_lt_of_given? hvalue))).bind fun _ _ => ?_
  exact h.located.reads.bind fun _ _ => failsOnly_ok _

theorem IsDeclaration.reads (h : IsDeclaration shown json) :
    FailsOnly (Hinders scope shown budget json) (readDeclaration scope budget json pointer) := by
  cases h with
  | enum told named located members =>
      refine .bind_of_ok told.reads (named.reads.bind fun _ _ => located.reads.bind fun _ _ => ?_)
      obtain ⟨items, has, hitems⟩ := members
      exact (reads_all has fun item hitem _ => (hitems item hitem).reads.mono
        (Hinders.around (depth_lt_of_listed? has item hitem))).map _
  | interface told named located bases members =>
      refine .bind_of_ok told.reads (named.reads.bind fun _ _ => located.reads.bind fun _ _ => ?_)
      obtain ⟨extended, hextended, hbases⟩ := bases
      obtain ⟨items, has, hitems⟩ := members
      refine (reads_all hextended fun item hitem _ => (hbases item hitem).reads.mono
        (Hinders.around (depth_lt_of_listed? hextended item hitem))).bind fun _ _ => ?_
      exact (reads_all has fun item hitem _ => (IsMember.reads (hitems item hitem)).mono
        (Hinders.around (depth_lt_of_listed? has item hitem))).bind fun _ _ => failsOnly_ok _
  | typeAlias told named located type =>
      refine .bind_of_ok told.reads (named.reads.bind fun _ _ => located.reads.bind fun _ _ => ?_)
      obtain ⟨value, hvalue, htype⟩ := type
      exact (reads_required hvalue fun _ =>
        (IsType.reads htype).mono (Hinders.around (Json.depth_lt_of_get? hvalue))).map _
  | other told named located other =>
      refine .bind_of_ok told.reads (named.reads.bind fun _ _ => located.reads.bind fun _ _ => ?_)
      split
      case h_4 => exact failsOnly_ok _
      all_goals exact absurd (by decide) other

theorem MayHave.reads (h : MayHave (IsType shown) json field) :
    FailsOnly (Hinders scope shown budget json)
      (readOptional (readType scope budget) json field pointer) :=
  reads_optional fun value hvalue _ =>
    (IsType.reads (h value hvalue)).mono (Hinders.around (depth_lt_of_given? hvalue))

theorem IsParameter.reads (h : IsParameter shown json) :
    FailsOnly (Hinders scope shown budget json)
      (readParameter scope (readType scope budget) json pointer) := by
  refine (reads_requireObject h.object).bind fun _ _ => ?_
  refine h.named.reads.bind fun _ _ => ?_
  refine h.typed.reads.bind fun _ _ => ?_
  exact h.located.reads.bind fun _ _ => failsOnly_ok _

theorem IsSignature.reads (h : IsSignature shown json) :
    FailsOnly (Hinders scope shown budget json) (readSignature scope budget json pointer) := by
  obtain ⟨items, has, hitems⟩ := h.parameters
  refine (reads_requireObject h.object).bind fun _ _ => ?_
  refine (reads_all has fun item hitem _ => (hitems item hitem).reads.mono
    (Hinders.around (depth_lt_of_listed? has item hitem))).bind fun _ _ => ?_
  refine h.named.reads.bind fun _ _ => ?_
  refine h.returns.reads.bind fun _ _ => ?_
  exact h.located.reads.bind fun _ _ => failsOnly_ok _

theorem reads_atOutermost {α : Type} {read : Json → Pointer → Except Error α}
    (h : FailsOnly (Hinders scope shown budget json) (read json pointer)) :
    FailsOnly (Hinders scope shown budget json) (atOutermost read json pointer) := by
  rw [atOutermost]
  cases hread : read json pointer with
  | ok a => exact failsOnly_ok a
  | error error =>
      refine failsOnly_error ?_
      cases h error hread with
      | deep deep => exact .deep deep
      | long long => exact .long long

theorem IsDocument.reads (h : IsDocument shown json) :
    FailsOnly (Hinders scope shown budget json) (readDocumentWithin scope budget json) := by
  obtain ⟨declarations, hdeclarations, heach⟩ := h.declarations
  obtain ⟨functions, hfunctions, heach'⟩ := h.functions
  rw [readDocumentWithin, h.object]
  refine (reads_all hdeclarations fun item hitem _ => (reads_atOutermost
    (heach item hitem).reads).mono
      (Hinders.around (depth_lt_of_listed? hdeclarations item hitem))).bind fun _ _ => ?_
  exact (reads_all hfunctions fun item hitem _ => (reads_atOutermost
    (heach' item hitem).reads).mono
      (Hinders.around (depth_lt_of_listed? hfunctions item hitem))).bind fun _ _ => failsOnly_ok _

end Nodes

/-- **Documents are what the grammar says**, up to what is shown. A document by the grammar of the
format is read unless it is nested too deeply, or shows too long an integer and is refused for that.
Any other value is refused, and for its form unless it holds too long an integer as well. -/
theorem documents_are_grammatical (limits : Limits) (reader : DocumentReader) (json : Json)
    (given : Option String) :
    let result := (reader.read limits json given).1
    (IsDocument IsShowable json →
      (∃ document, result = .ok document) ∨
        ∃ pointer, result = .error ⟨.nestedTooDeeply, pointer⟩ ∧
          (limits.parsing ≤ json.depth ∨ limits.showing ≤ json.depth)) ∧
    (IsDocument (fun _ => True) json → ¬ IsDocument IsShowable json →
      ∃ pointer, (result = .error ⟨.integerTooLong, pointer⟩ ∧ json.hasLongInteger) ∨
        (result = .error ⟨.nestedTooDeeply, pointer⟩ ∧
          (limits.parsing ≤ json.depth ∨ limits.showing ≤ json.depth))) ∧
    (¬ IsDocument (fun _ => True) json →
      ∃ error, result = .error error ∧ (error.problem.isFormal ∨ json.hasLongInteger)) := by
  intro result
  have hlong : ∀ error, result = .error error → error.problem = .integerTooLong →
      json.hasLongInteger := fun error hread => (placed_readDocumentWithin _ error hread).long
  cases hresult : result with
  | ok document =>
      refine ⟨fun _ => .inl ⟨document, rfl⟩, fun _ h => ?_, fun h => ?_⟩
      · exact absurd (isDocument_of_readDocumentWithin (fun _ => id) hresult) h
      · exact absurd (isDocument_of_readDocumentWithin (fun _ _ => trivial) hresult) h
  | error error =>
      refine ⟨fun h => ?_, fun h _ => ?_, fun _ => ⟨error, rfl, ?_⟩⟩
      · cases h.reads _ hresult with
        | deep deep => exact .inr ⟨_, rfl, deep⟩
        | long long => exact absurd (fun _ => id) long
      · cases h.reads _ hresult with
        | deep deep => exact ⟨_, .inr ⟨rfl, deep⟩⟩
        | long long => exact ⟨_, .inl ⟨rfl, hlong _ hresult rfl⟩⟩
      · by_cases hproblem : error.problem = .integerTooLong
        · exact .inr (hlong error hresult hproblem)
        · exact .inl (decide_eq_true hproblem)

/-- A document of one function that returns the given type. -/
def returning (type : Json) : Json :=
  .object [("functions", .array [.object [("name", .text "find"), ("returnType", type)]])]

theorem isDocument_returning_iff {shown : Json → Prop} {type : Json} (hnull : type ≠ .null) :
    IsDocument shown (returning type) ↔ IsType shown type := by
  have hgiven : (Json.object [("name", .text "find"), ("returnType", type)]).given? "returnType" =
      some type := given?_eq_some_iff.mpr ⟨rfl, hnull⟩
  constructor
  · intro h
    obtain ⟨items, hitems, heach⟩ := h.functions
    obtain rfl := Option.some.inj hitems
    exact (heach _ (List.mem_singleton_self _)).returns type hgiven
  · intro h
    refine ⟨rfl, ⟨[], rfl, List.forall_mem_nil _⟩, _, rfl, List.forall_mem_singleton.mpr ?_⟩
    refine ⟨rfl, ⟨"find", rfl⟩, ⟨[], rfl, List.forall_mem_nil _⟩, ?_, fun _ hloc => nomatch hloc⟩
    intro value hvalue
    obtain rfl := Option.some.inj (hgiven.symm.trans hvalue)
    exact h

/-- A literal type whose literal, the word for `null`, shows a number. -/
def counting (n : Int) : Json :=
  .object [("kind", .text "LiteralType"),
    ("literal", .object [("kind", .text "NullKeyword"), ("text", .ofInt n)])]

theorem IsNode.hasLiteral {shown : Json → Prop} (h : IsType shown json)
    (hkind : HasKind json "LiteralType") : Has (IsLiteral shown) json "literal" := by
  cases h with
  | literal told located has => exact has
  | wrapper told located wraps has part =>
      obtain rfl := told.unique hkind
      exact absurd wraps (by simp [wrapperFields])
  | list told located lists has parts =>
      obtain rfl := told.unique hkind
      exact absurd lists (by simp [listFields])
  | object told located has parts => exact absurd (told.unique hkind) (by decide)
  | reference told located named has parts => exact absurd (told.unique hkind) (by decide)
  | plain told located other =>
      obtain rfl := told.unique hkind
      exact absurd (by decide) other

theorem isType_counting_iff {shown : Json → Prop} (n : Int) :
    IsType shown (counting n) ↔ shown (.ofInt n) := by
  have hkind : HasKind (.object [("kind", .text "NullKeyword"), ("text", .ofInt n)])
      "NullKeyword" := ⟨rfl, by decide⟩
  constructor
  · intro h
    obtain ⟨literal, hliteral, kind, literalKind, hnull, known, holds⟩ :=
      IsNode.hasLiteral h ⟨rfl, by decide⟩
    obtain rfl := Option.some.inj hliteral
    obtain rfl := hnull.unique hkind
    obtain rfl := Option.some.inj known
    exact holds.shows (by decide) _ rfl
  · intro h
    refine .literal ⟨rfl, by decide⟩ (fun _ hloc => nomatch hloc) ⟨_, rfl, "NullKeyword", .null,
      hkind, rfl, fun hvalue => absurd hvalue (by decide), fun _ value hvalue => ?_,
      fun _ hloc => nomatch hloc⟩
    obtain rfl := Option.some.inj hvalue
    exact h

theorem isDocument_counting_iff {shown : Json → Prop} (n : Int) :
    IsDocument shown (returning (counting n)) ↔ shown (.ofInt n) :=
  (isDocument_returning_iff (by rintro ⟨⟩)).trans (isType_counting_iff n)

theorem shallow_counting (n : Int) :
    ¬ (Limits.usual.parsing ≤ (returning (counting n)).depth ∨
      Limits.usual.showing ≤ (returning (counting n)).depth) := by
  have hdepth : (returning (counting n)).depth = 5 := rfl
  rw [hdepth]
  decide

/-- An integer is shown exactly if it is short. -/
theorem isShowable_ofInt_iff {n : Int} :
    IsShowable (.ofInt n) ↔ n.natAbs < 10 ^ Number.digitLimit := by
  change (Number.integer n).isTooLong = false ↔ _
  rw [← Bool.not_eq_true, Number.isTooLong_integer_iff, Nat.not_le]

theorem not_isShowable_long : ¬ IsShowable (.ofInt (10 ^ Number.digitLimit : Nat)) := by
  rw [isShowable_ofInt_iff, Nat.not_lt, Int.natAbs_natCast]

/-- A literal may show a number if that is short, and a type without a kind is none. -/
theorem documents_are_grammatical_returning :
    (∃ document, (DocumentReader.read .usual ⟨""⟩ (returning (counting 7)) none).1 =
        .ok document) ∧
      (∃ pointer, (DocumentReader.read .usual ⟨""⟩
          (returning (counting (10 ^ Number.digitLimit : Nat))) none).1 =
        .error ⟨.integerTooLong, pointer⟩) ∧
      ∃ error, (DocumentReader.read .usual ⟨""⟩ (returning (.object [])) none).1 =
        .error error := by
  refine ⟨?_, ?_, ?_⟩
  · have hshort : IsShowable (.ofInt 7) := isShowable_ofInt_iff.mpr
      (Nat.lt_of_lt_of_le (by decide : 7 < 10 ^ 1) (Nat.pow_le_pow_right (by decide) (by decide)))
    have h := (documents_are_grammatical .usual ⟨""⟩ (returning (counting 7)) none).1
      ((isDocument_counting_iff 7).mpr hshort)
    exact h.resolve_right fun ⟨_, _, hdeep⟩ => shallow_counting _ hdeep
  · obtain ⟨pointer, ⟨hlong, -⟩ | ⟨-, hdeep⟩⟩ :=
      (documents_are_grammatical .usual ⟨""⟩
        (returning (counting (10 ^ Number.digitLimit : Nat))) none).2.1
        ((isDocument_counting_iff _).mpr trivial)
        fun h => not_isShowable_long ((isDocument_counting_iff _).mp h)
    · exact ⟨pointer, hlong⟩
    · exact absurd hdeep (shallow_counting _)
  · obtain ⟨error, herror, -⟩ :=
      (documents_are_grammatical .usual ⟨""⟩ (returning (.object [])) none).2.2 fun h => by
        have htype := (isDocument_returning_iff (by rintro ⟨⟩)).mp h
        obtain ⟨kind, told⟩ : ∃ kind, HasKind (.object []) kind := by
          cases htype <;> exact ⟨_, by assumption⟩
        cases told.1
    exact ⟨error, herror⟩

/-- The grammar of the format is not enough to be read: a literal that shows an integer of too many
digits is refused. -/
theorem documents_not_always_read :
    ¬ ∀ (limits : Limits) (reader : DocumentReader) (json : Json) (given : Option String),
      IsDocument (fun _ => True) json →
        (∃ document, (reader.read limits json given).1 = .ok document) ∨
          ∃ pointer, (reader.read limits json given).1 = .error ⟨.nestedTooDeeply, pointer⟩ := by
  intro h
  have hdocument : IsDocument (fun _ => True)
      (returning (counting (10 ^ Number.digitLimit : Nat))) :=
    (isDocument_counting_iff _).mpr trivial
  obtain ⟨document, hread⟩ | ⟨pointer, hread⟩ := h .usual ⟨""⟩ _ none hdocument
  · exact not_isShowable_long
      ((isDocument_counting_iff _).mp (isDocument_of_readDocumentWithin (fun _ => id) hread))
  · cases hdocument.reads _ hread with
    | deep deep => exact shallow_counting _ deep

end TypeSchema.Format
