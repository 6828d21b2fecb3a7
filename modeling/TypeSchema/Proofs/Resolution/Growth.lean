import TypeSchema.Proofs.Denotation.Modes
import TypeSchema.Proofs.Resolution.Transfer

/-!
# Registering further declarations

Further declarations of a name stand behind the ones that are there, and references keep going to
the first. The values of enum members are kept by qualified name, and of these the latest counts. So
a model stays what it was exactly when no enum member that went into it is registered again with
another literal.
-/

namespace TypeSchema

namespace DeclarationTable

variable (declarations further : List Declaration)

theorem declarations_append (name : String) :
    (ofList (declarations ++ further)).declarations name =
      (ofList declarations).declarations name ++ (ofList further).declarations name := by
  simp only [DeclarationTable.declarations, ofList_entries, List.flatMap_append,
    List.filterMap_append]

theorem value?_append (name : String) :
    (ofList (declarations ++ further)).value? name =
      ((ofList further).value? name).or ((ofList declarations).value? name) := by
  simp only [value?, ofList_values, List.flatMap_append, List.reverse_append, List.lookup_append]

end DeclarationTable

theorem Evaluated.literalSchema?_cases (evaluated : Evaluated) :
    evaluated.literalSchema? = none ∨
      evaluated.literalSchema? = some (.stringLiteral evaluated.value) ∨
      evaluated.literalSchema? = some (.numberLiteral evaluated.value) := by
  unfold Evaluated.literalSchema?
  split
  · exact .inr (.inl rfl)
  · split
    · exact .inr (.inr rfl)
    · exact .inl rfl

/-- The literal of an enum member can be told from its label. -/
theorem Evaluated.literalSchema?_eq_of_label? {evaluated evaluated' : Evaluated}
    (h : evaluated.literalSchema?.bind Schema.label? =
      evaluated'.literalSchema?.bind Schema.label?) :
    evaluated.literalSchema? = evaluated'.literalSchema? := by
  obtain hleft | hleft | hleft := evaluated.literalSchema?_cases <;>
    obtain hright | hright | hright := evaluated'.literalSchema?_cases <;>
    rw [hleft, hright] at h ⊢ <;> simp_all [Schema.label?]

namespace Environment

variable {env env' : Environment} {aliases : Bool} {place place' : Place} {path : List Selector}

/-- A value that is registered later takes the place of an earlier one. -/
theorem evaluateMember_append (declarations further : List Declaration) (member : EnumMember) :
    (ofTable (.ofList (declarations ++ further))).evaluateMember member =
      ((DeclarationTable.ofList further).value? member.qualifiedName).getD
        ((ofTable (.ofList declarations)).evaluateMember member) := by
  simp only [ofTable, DeclarationTable.evaluateMember, DeclarationTable.value?_append]
  cases (DeclarationTable.ofList further).value? member.qualifiedName with
  | none => rfl
  | some evaluated => rfl

theorem continues_append (declarations further : List Declaration) :
    (ofTable (.ofList declarations)).Continues (ofTable (.ofList (declarations ++ further))) where
  declarations := by
    intro name first others h
    refine ⟨others ++ (DeclarationTable.ofList further).declarations name, ?_⟩
    have happend := DeclarationTable.declarations_append declarations further name
    rw [show (DeclarationTable.ofList declarations).declarations name = first :: others from h]
      at happend
    exact happend
  literals := rfl

theorem Continues.next_eq (h : env.Continues env')
    (head : (env.graph aliases).next place = some place') :
    (env'.graph aliases).next place = some place' := by
  cases place with
  | type type =>
      cases type with
      | reference location name arguments => exact h.place?_eq head
      | _ => exact head
  | _ => exact head

/-- Only the values of enum members may be other places in a larger environment. -/
theorem child_eq_or_value {selector : Selector}
    (head : (env.graph aliases).child place selector = some place') :
    (env'.graph aliases).child place selector = some place' ∨
      ∃ evaluated, place' = .value evaluated := by
  cases place with
  | enumMember member =>
      cases selector with
      | content => exact .inr ⟨_, (Option.some.inj head).symm⟩
      | _ => cases head
  | type type => cases type <;> cases selector <;> exact .inl head
  | _ => cases selector <;> exact .inl head

theorem Continues.leads (h : env.Continues env') {member : EnumMember}
    (leads : (env.graph aliases).Leads place path (.enumMember member)) :
    (env'.graph aliases).Leads place path (.enumMember member) := by
  generalize hend : Place.enumMember member = last at leads
  induction leads with
  | stop => exact .stop
  | next head _ ih => exact .next (h.next_eq head) (ih hend)
  | child head tail ih =>
      obtain hchild | ⟨evaluated, rfl⟩ := child_eq_or_value head
      · exact .child hchild (ih hend)
      · cases tail with
        | stop => cases hend
        | next head' _ => cases head'
        | child head' _ => cases head'

end Environment

section Growth

variable {declarations further : List Declaration} {budget : Nat} {policy : Policy}
  {type : TypeExpr} {model : Model}

/-- What is registered again with the same literals changes no member schema. -/
theorem keeps_of_same_literals
    (same : ∀ path member evaluated,
      ((Environment.ofTable (.ofList declarations)).graph policy.aliases).Leads (.type type) path
        (.enumMember member) →
      (DeclarationTable.ofList further).value? member.qualifiedName = some evaluated →
        evaluated.literalSchema? =
          ((Environment.ofTable (.ofList declarations)).evaluateMember member).literalSchema?) :
    (Environment.ofTable (.ofList declarations)).Keeps
      (.ofTable (.ofList (declarations ++ further))) policy.aliases (.type type) := by
  intro path member leads
  have hliteral :
      ((Environment.ofTable (.ofList (declarations ++ further))).evaluateMember
        member).literalSchema? =
      ((Environment.ofTable (.ofList declarations)).evaluateMember member).literalSchema? := by
    rw [Environment.evaluateMember_append]
    cases hvalue : (DeclarationTable.ofList further).value? member.qualifiedName with
    | none => rfl
    | some evaluated => exact same path member evaluated leads hvalue
  rw [Environment.memberSchema?, Environment.memberSchema?, hliteral]

/-- Where the model stays the same, so do the literals of all members that paths lead to. -/
theorem same_literal_of_same_model
    (h : (resolveWithin budget (.ofTable (.ofList declarations)) policy type).1 = .ok model)
    (h' : (resolveWithin budget (.ofTable (.ofList (declarations ++ further))) policy type).1 =
      .ok model)
    {path : List Selector} {member : EnumMember} {evaluated : Evaluated}
    (leads : ((Environment.ofTable (.ofList declarations)).graph policy.aliases).Leads
      (.type type) path (.enumMember member))
    (hvalue : (DeclarationTable.ofList further).value? member.qualifiedName = some evaluated) :
    evaluated.literalSchema? =
      ((Environment.ofTable (.ofList declarations)).evaluateMember member).literalSchema? := by
  set env : Environment := .ofTable (.ofList declarations)
  set env' : Environment := .ofTable (.ofList (declarations ++ further))
  have hnamed : env.WellNamed := Environment.wellNamed_ofTable _
  have hnamed' : env'.WellNamed := Environment.wellNamed_ofTable _
  have hproper' := env'.graph_proper policy.aliases
  -- the literal stands one step behind the member, in either environment
  have hcontent : (env.graph policy.aliases).Leads (.type type) (path ++ [.content])
      (.value (env.evaluateMember member)) := leads.append (.child rfl .stop)
  have hcontent' : (env'.graph policy.aliases).Leads (.type type) (path ++ [.content])
      (.value (env'.evaluateMember member)) :=
    ((Environment.continues_append declarations further).leads leads).append (.child rfl .stop)
  have hevaluated : env'.evaluateMember member = evaluated := by
    have happend := Environment.evaluateMember_append declarations further member
    rwa [hvalue, Option.getD_some] at happend
  obtain ⟨label, hlabel⟩ := exists_label_of_resolveWithin hnamed h hcontent rfl
  have hshows : model.graph.Shows model.root (path ++ [.content]) label :=
    (resolveWithin_shows_iff hnamed h _ _).mpr ⟨_, hcontent, hlabel⟩
  obtain ⟨place, hplace, hlabel'⟩ := (resolveWithin_shows_iff hnamed' h' _ _).mp hshows
  have hsame : place = .value (env'.evaluateMember member) :=
    hplace.unique hproper' (hproper'.next_of_label hlabel') hcontent' rfl
  rw [hsame, hevaluated] at hlabel'
  exact Evaluated.literalSchema?_eq_of_label? (hlabel'.trans hlabel.symm)

/-- **What further declarations change.** A type expression that has a model keeps it, root and
definitions, exactly when no enum member on its paths is registered again with another literal. New
names, further declarations of known names and repeated members with the same literals change
nothing. -/
theorem model_kept_iff
    (h : (resolveWithin budget (.ofTable (.ofList declarations)) policy type).1 = .ok model) :
    (resolveWithin budget (.ofTable (.ofList (declarations ++ further))) policy type).1 =
        .ok model ↔
      ∀ path member evaluated,
        ((Environment.ofTable (.ofList declarations)).graph policy.aliases).Leads (.type type) path
          (.enumMember member) →
        (DeclarationTable.ofList further).value? member.qualifiedName = some evaluated →
          evaluated.literalSchema? =
            ((Environment.ofTable (.ofList declarations)).evaluateMember
              member).literalSchema? := by
  constructor
  · intro h' path member evaluated leads hvalue
    exact same_literal_of_same_model h h' leads hvalue
  · intro same
    exact resolveWithin_eq_ok_of_keeps (Environment.continues_append declarations further)
      (keeps_of_same_literals same) h

end Growth

/-- The enum `E` with a single member `A`, whose initializer has the given text. -/
def loneEnum (text : String) : Declaration :=
  .enum none "E" [⟨none, "A", "E", ⟨.identifier, "A", none⟩, some ⟨.numeric, text, none⟩⟩]

def loneEnumSchema (value : Int) : Schema :=
  .enum "E" [.enumMember "A" (.numberLiteral (.ofInt value))]

/-- Neither an interface of that name nor the same value in another spelling changes the model. -/
theorem model_kept_iff_respelt :
    let env : Environment := .ofTable (.ofList [loneEnum "1"])
    let further : List Declaration := [.interface none "E" [] [], loneEnum "0x1"]
    let type : TypeExpr := .reference none "E" []
    (resolveWithin 1 env ⟨.expand, false⟩ type).1 = .ok ⟨loneEnumSchema 1, []⟩ ∧
      (resolveWithin 1 (.ofTable (.ofList ([loneEnum "1"] ++ further))) ⟨.expand, false⟩ type).1 =
        .ok ⟨loneEnumSchema 1, []⟩ ∧
      ∀ path member evaluated, (env.graph false).Leads (.type type) path (.enumMember member) →
        (DeclarationTable.ofList further).value? member.qualifiedName = some evaluated →
          evaluated.literalSchema? = (env.evaluateMember member).literalSchema? := by
  intro env further type
  have h : (resolveWithin 1 env ⟨.expand, false⟩ type).1 = .ok ⟨loneEnumSchema 1, []⟩ := rfl
  have h' : (resolveWithin 1 (.ofTable (.ofList ([loneEnum "1"] ++ further))) ⟨.expand, false⟩
    type).1 = .ok ⟨loneEnumSchema 1, []⟩ := rfl
  exact ⟨h, h', (model_kept_iff h).mp h'⟩

/-- A second enum of the name, with another value for the member, does change it, although
references mean the first. -/
theorem model_not_always_kept :
    ¬ ∀ (declarations further : List Declaration) (budget : Nat) (policy : Policy) (type : TypeExpr)
      (model : Model),
      (resolveWithin budget (.ofTable (.ofList declarations)) policy type).1 = .ok model →
        (resolveWithin budget (.ofTable (.ofList (declarations ++ further))) policy type).1 =
          .ok model := by
  intro h
  have hkept := h [loneEnum "1"] [loneEnum "2"] 1 ⟨.expand, false⟩ (.reference none "E" [])
    ⟨loneEnumSchema 1, []⟩ rfl
  have hchanged : (resolveWithin 1 (.ofTable (.ofList ([loneEnum "1"] ++ [loneEnum "2"])))
    ⟨.expand, false⟩ (.reference none "E" [])).1 = .ok ⟨loneEnumSchema 2, []⟩ := rfl
  rw [hkept] at hchanged
  simp [loneEnumSchema, Json.ofInt] at hchanged

end TypeSchema
