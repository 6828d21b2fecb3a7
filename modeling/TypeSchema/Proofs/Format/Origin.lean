import TypeSchema.Format.Fragment
import TypeSchema.Proofs.Format.Budget
import TypeSchema.Proofs.Format.Path

/-!
# Where nodes come from

Reading starts at the root of a document and goes from a value to its parts, and the pointer goes
along: whatever reader is called, it is called on a value and with the pointer to that value. So the
pointer in the location of a node leads to the value that the node was read from, and reading that
value again, alone and with that pointer, gives the same node.
-/

namespace TypeSchema.Format

/-- The pointer points to the value, counted from the root of the document. -/
structure Stands (root : Json) (pointer : Pointer) (json : Json) : Prop where
  base : pointer.base = "#"
  plain : pointer.IsPlain
  follows : root.follow? pointer.steps = some json

variable {scope : Scope} {root json value : Json} {pointer : Pointer} {key : String}

theorem stands_root (root : Json) : Stands root .root root where
  base := rfl
  plain := ⟨by decide, fun _ h => absurd h List.not_mem_nil⟩
  follows := rfl

theorem Stands.field (h : Stands root pointer json) (hfield : json.get? key = some value)
    (plain : '/' ∉ key.toList) : Stands root (pointer.field key) value where
  base := h.base
  plain := by
    refine ⟨h.plain.base, fun name hname => ?_⟩
    obtain hname | hname := List.mem_append.mp hname
    · exact h.plain.names name hname
    · obtain ⟨rfl⟩ := List.mem_singleton.mp hname
      exact plain
  follows := by
    rw [Pointer.field, Json.follow?_append, h.follows, Option.bind_some, Json.follow?, hfield]
    rfl

theorem Stands.index {items : List Json} {position : Nat} (h : Stands root pointer (.array items))
    (hitem : items[position]? = some value) : Stands root (pointer.index position) value where
  base := h.base
  plain := by
    refine ⟨h.plain.base, fun name hname => ?_⟩
    obtain hname | hname := List.mem_append.mp hname
    · exact h.plain.names name hname
    · cases List.mem_singleton.mp hname
  follows := by
    rw [Pointer.index, Json.follow?_append, h.follows, Option.bind_some, Json.follow?, Json.item?,
      hitem]
    rfl

/-- The text of the pointer leads to the value as well. -/
theorem Stands.followPath? (h : Stands root pointer json) :
    root.followPath? pointer.render = some json :=
  h.plain.followPath?_render h.follows

/-! ### Fragments that are found again -/

/-- The location of the fragment leads to a value from which it is read. -/
def Found (root : Json) (scope : Scope) (limit : Nat) (fragment : Fragment) : Prop :=
  ∃ location value, fragment.location = some location ∧ Stands root location.pointer value ∧
    fragment.IsReadFrom scope limit value location.pointer

/-- The fragment and everything inside it are found again. -/
def FoundThroughout (root : Json) (scope : Scope) (limit : Nat) (fragment : Fragment) : Prop :=
  ∀ inner, fragment.Holds inner → Found root scope limit inner

/-- The fragments that a reader yields are found again if it is called where it should be. -/
def Traces {α : Type} (root : Json) (scope : Scope) (limit : Nat) (fragment : α → Fragment)
    (read : Json → Pointer → Except Error α) : Prop :=
  ∀ pointer json a, Stands root pointer json → read json pointer = .ok a →
    FoundThroughout root scope limit (fragment a)

variable {limit : Nat}

theorem foundThroughout_of_parts {fragment : Fragment} {location : Location}
    (hlocation : fragment.location = some location) (stands : Stands root pointer json)
    (hpointer : location.pointer = pointer) (hread : fragment.IsReadFrom scope limit json pointer)
    (hparts : ∀ part ∈ fragment.parts, FoundThroughout root scope limit part) :
    FoundThroughout root scope limit fragment := by
  subst hpointer
  intro inner hinner
  obtain rfl | ⟨part, hpart, hrest⟩ := hinner.cases_head
  · exact ⟨location, json, hlocation, stands, hread⟩
  · exact hparts part hpart inner hrest

section Parts

variable {α : Type} {read : Json → Pointer → Except Error α} {fragment : α → Fragment}
  (h : Traces root scope limit fragment read) (stands : Stands root pointer json)
  (plain : '/' ∉ key.toList)

include h stands plain

theorem Traces.all {found : List α} (hread : readAll read json key pointer = .ok found) :
    ∀ part ∈ found.map fragment, FoundThroughout root scope limit part := by
  intro part hpart
  obtain ⟨a, ha, rfl⟩ := List.mem_map.mp hpart
  obtain ⟨items, hitems, heach⟩ := readAll_eq_ok_iff.mp hread
  obtain ⟨index, item, hitem, hread⟩ := exists_of_mem_readEach heach ha
  obtain ⟨-, rfl⟩ | harray := readList_eq_ok_iff.mp hitems
  · cases hitem
  · exact h _ _ _ ((stands.field harray plain).index (by rwa [Nat.zero_add])) hread

theorem Traces.optional {found : Option α}
    (hread : readOptional read json key pointer = .ok found) :
    ∀ part ∈ found.toList.map fragment, FoundThroughout root scope limit part := by
  obtain ⟨-, rfl⟩ | ⟨value, a, hvalue, -, ha, rfl⟩ := readOptional_eq_ok_iff.mp hread
  · exact fun _ hpart => absurd hpart List.not_mem_nil
  · intro part hpart
    obtain rfl := List.mem_singleton.mp hpart
    exact h _ _ _ (stands.field hvalue plain) ha

theorem Traces.required {missing : Problem} {a : α}
    (hread : readRequired read missing json key pointer = .ok a) :
    FoundThroughout root scope limit (fragment a) := by
  obtain ⟨value, hvalue, ha⟩ := readRequired_eq_ok_iff.mp hread
  exact h _ _ _ (stands.field hvalue plain) ha

end Parts

/-! ### Readers -/

theorem traces_literal : Traces root scope limit .literal (readLiteral scope) := by
  intro pointer json literal stands h
  obtain ⟨kind, literalKind, hkind, hlookup, hliteral⟩ := readLiteral_eq_ok_iff.mp h
  obtain ⟨text, location, htext, hlocation, rfl⟩ := readLiteralOf_eq_ok_iff.mp hliteral
  exact foundThroughout_of_parts rfl stands (pointer_of_readLocation hlocation) h
    fun _ hpart => absurd hpart List.not_mem_nil

theorem traces_initializer : Traces root scope limit .initializer (readInitializer scope) := by
  intro pointer json literal stands h
  obtain ⟨kind, hkind, hliteral⟩ := readInitializer_eq_ok_iff.mp h
  obtain ⟨text, location, htext, hlocation, rfl⟩ := readLiteralOf_eq_ok_iff.mp hliteral
  exact foundThroughout_of_parts rfl stands (pointer_of_readLocation hlocation) h
    fun _ hpart => absurd hpart List.not_mem_nil

theorem traces_name : Traces root scope limit .name (readName scope) := by
  intro pointer json name stands h
  cases readName_eq_ok_iff.mp h with
  | short short =>
      exact foundThroughout_of_parts rfl stands rfl h
        fun _ hpart => absurd hpart List.not_mem_nil
  | node told known shown located =>
      exact foundThroughout_of_parts rfl stands (pointer_of_readLocation located) h
        fun _ hpart => absurd hpart List.not_mem_nil

theorem readMemberName_eq_ok_iff {name : PropertyName} :
    readMemberName scope json pointer = .ok name ↔ ∃ value, json.get? "name" = some value ∧
      readName scope value (pointer.field "name") = .ok name := by
  rw [readMemberName]
  cases hname : json.get? "name" with
  | none =>
      have hnull : readName scope .null (pointer.field "name") ≠ .ok name := by
        intro h
        cases readName_eq_ok_iff.mp h with
        | short short => cases short
        | node told _ _ _ => cases (readKind_eq_ok_iff.mp told).1
      simpa using hnull
  | some value => simp

theorem foundThroughout_memberName (stands : Stands root pointer json) {name : PropertyName}
    (h : readMemberName scope json pointer = .ok name) :
    FoundThroughout root scope limit (.name name) := by
  obtain ⟨value, hvalue, hname⟩ := readMemberName_eq_ok_iff.mp h
  exact traces_name _ _ _ (stands.field hvalue (by decide)) hname

theorem readOptional_eq_none_of_absent {α : Type} {read : Json → Pointer → Except Error α}
    {found : Option α} (habsent : json.get? key = none)
    (h : readOptional read json key pointer = .ok found) : found = none := by
  rw [readOptional, habsent] at h
  exact (Except.ok.inj h).symm

section Readers

variable {reader : TypeReader} (htype : Traces root scope limit .type reader)

include htype

theorem Traces.member (hmember : Extends reader (readType scope limit)) :
    Traces root scope limit .member (readMember scope reader) := by
  intro pointer json member stands h
  have hextends : Extends (readMember scope reader) (readMember scope (readType scope limit)) :=
    hmember.member
  have hread := hextends _ _ _ h
  cases readMember_eq_ok_iff.mp h with
  | property told located named typed =>
      refine foundThroughout_of_parts rfl stands (pointer_of_readLocation located) hread ?_
      exact List.forall_mem_cons.mpr
        ⟨foundThroughout_memberName stands named, htype.optional stands (by decide) typed⟩
  | @index _ parameters _ _ _ _ told located listed first object shown keyed typed =>
      refine foundThroughout_of_parts rfl stands (pointer_of_readLocation located) hread ?_
      refine List.forall_mem_append.mpr ⟨?_, htype.optional stands (by decide) typed⟩
      subst first
      cases parameters with
      | nil =>
          -- There is no type to be read in what stands in for a parameter.
          obtain rfl := readOptional_eq_none_of_absent rfl keyed
          exact fun _ hpart => absurd hpart List.not_mem_nil
      | cons parameter rest =>
          obtain ⟨-, hnil⟩ | harray := readList_eq_ok_iff.mp listed
          · cases hnil
          · exact htype.optional ((stands.field harray (by decide)).index rfl) (by decide) keyed
  | other told known located named =>
      refine foundThroughout_of_parts rfl stands (pointer_of_readLocation located) hread ?_
      exact traces_name.optional stands (by decide) named

theorem Traces.typeStep (hstep : Extends (readTypeStep scope reader) (readType scope limit))
    (hmember : Extends reader (readType scope limit)) :
    Traces root scope limit .type (readTypeStep scope reader) := by
  intro pointer json type stands h
  have hread := hstep _ _ _ h
  obtain ⟨kind, location, -, hlocation, hrule⟩ := readTypeStep_eq_ok_iff.mp h
  have hpointer := pointer_of_readLocation hlocation
  cases hrule with
  | keyword known | unsupported unknown other =>
      exact foundThroughout_of_parts rfl stands hpointer hread
        fun _ hpart => absurd hpart List.not_mem_nil
  | literal part =>
      refine foundThroughout_of_parts rfl stands hpointer hread ?_
      exact List.forall_mem_singleton.mpr (traces_literal.required stands (by decide) part)
  | array part | parenthesized part =>
      refine foundThroughout_of_parts rfl stands hpointer hread ?_
      exact List.forall_mem_singleton.mpr (htype.required stands (by decide) part)
  | union parts | intersection parts | tuple parts | reference named parts =>
      refine foundThroughout_of_parts rfl stands hpointer hread ?_
      exact htype.all stands (by decide) parts
  | object parts =>
      refine foundThroughout_of_parts rfl stands hpointer hread ?_
      exact (htype.member hmember).all stands (by decide) parts

end Readers

theorem traces_type {budget : Nat} (hbudget : budget ≤ limit) :
    Traces root scope limit .type (readType scope budget) := by
  induction budget with
  | zero =>
      intro pointer json type stands h
      exact absurd h fail_ne_ok
  | succ budget ih =>
      have hless := Nat.le_of_succ_le hbudget
      exact (ih hless).typeStep (readType_extends hbudget) (readType_extends hless)

theorem traces_member :
    Traces root scope limit .member (readMember scope (readType scope limit)) :=
  (traces_type (Nat.le_refl limit)).member fun _ _ _ h => h

theorem traces_base : Traces root scope limit (fun base => .type base.type)
    (readBase (readType scope limit)) := by
  intro pointer json base stands h
  exact traces_type (Nat.le_refl limit) _ _ _ stands (readBase_eq_ok_iff.mp h)

theorem traces_enumMember (enumName : String) :
    Traces root scope limit .enumMember (readEnumMember scope enumName) := by
  intro pointer json member stands h
  have hread := h
  obtain ⟨name, initializer, location, -, hname, hinitializer, hlocation, rfl⟩ :=
    readEnumMember_eq_ok_iff.mp h
  refine foundThroughout_of_parts rfl stands (pointer_of_readLocation hlocation) hread ?_
  exact List.forall_mem_cons.mpr ⟨foundThroughout_memberName stands hname,
    traces_initializer.optional stands (by decide) hinitializer⟩

theorem traces_declaration :
    Traces root scope limit .declaration (readDeclaration scope limit) := by
  intro pointer json declaration stands h
  have hread := h
  obtain ⟨kind, name, location, -, -, hlocation, hrule⟩ := readDeclarationWith_eq_ok_iff.mp h
  have hpointer := pointer_of_readLocation hlocation
  cases hrule with
  | enum parts =>
      refine foundThroughout_of_parts rfl stands hpointer hread ?_
      exact (traces_enumMember name).all stands (by decide) parts
  | interface extended parts =>
      refine foundThroughout_of_parts rfl stands hpointer hread ?_
      exact List.forall_mem_append.mpr ⟨traces_base.all stands (by decide) extended,
        traces_member.all stands (by decide) parts⟩
  | typeAlias part =>
      refine foundThroughout_of_parts rfl stands hpointer hread ?_
      exact List.forall_mem_singleton.mpr
        ((traces_type (Nat.le_refl limit)).required stands (by decide) part)
  | other other =>
      exact foundThroughout_of_parts rfl stands hpointer hread
        fun _ hpart => absurd hpart List.not_mem_nil

theorem traces_parameter :
    Traces root scope limit .parameter (readParameter scope (readType scope limit)) := by
  intro pointer json parameter stands h
  have hread := h
  obtain ⟨name, type, location, -, -, htype, hlocation, rfl⟩ := readParameter_eq_ok_iff.mp h
  refine foundThroughout_of_parts rfl stands (pointer_of_readLocation hlocation) hread ?_
  exact (traces_type (Nat.le_refl limit)).optional stands (by decide) htype

theorem traces_signature : Traces root scope limit .signature (readSignature scope limit) := by
  intro pointer json signature stands h
  have hread := h
  obtain ⟨parameters, name, returnType, location, -, hparameters, -, hreturn, hlocation, rfl⟩ :=
    readSignatureWith_eq_ok_iff.mp h
  refine foundThroughout_of_parts rfl stands (pointer_of_readLocation hlocation) hread ?_
  exact List.forall_mem_append.mpr ⟨traces_parameter.all stands (by decide) hparameters,
    (traces_type (Nat.le_refl limit)).optional stands (by decide) hreturn⟩

/-- A type that is nested too deeply changes where that is reported, not what is read. -/
theorem Traces.atOutermost {α : Type} {fragment : α → Fragment}
    {read : Json → Pointer → Except Error α} (h : Traces root scope limit fragment read) :
    Traces root scope limit fragment (atOutermost read) := by
  intro pointer json a stands hread
  exact h pointer json a stands (atOutermost_eq_ok_iff.mp hread)

/-- Every node of a document is found again where its location says. -/
theorem found_of_readDocumentWithin {document : Document} {fragment : Fragment}
    (h : readDocumentWithin scope limit root = .ok document) (hholds : document.Holds fragment) :
    Found root scope limit fragment := by
  obtain ⟨declarations, functions, -, hdeclarations, hfunctions, rfl⟩ :=
    readDocumentWithin_eq_ok_iff.mp h
  obtain ⟨declaration, hmem, hholds⟩ | ⟨signature, hmem, hholds⟩ := hholds
  · exact traces_declaration.atOutermost.all (stands_root root) (by decide) hdeclarations _
      (List.mem_map_of_mem hmem) fragment hholds
  · exact traces_signature.atOutermost.all (stands_root root) (by decide) hfunctions _
      (List.mem_map_of_mem hmem) fragment hholds

end TypeSchema.Format
