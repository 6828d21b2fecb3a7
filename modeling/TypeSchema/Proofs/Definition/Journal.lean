import TypeSchema.Proofs.Reachability.Finished

/-!
# The journal of a resolution

A resolution records an event for every definition that it adds, but none for the declaration bodies
that it resolves. To count these, every body is reported before it is resolved, as whatever events
one likes: the journal of a resolution tells what is recorded then, for all ways to report bodies at
once. The journal grows with the rules. In it, definitions follow each other as they do in the
table, and warnings are those of the bodies that were resolved. In `share` mode a declaration is
defined when it is left, so there are as many bodies as definitions, and as definitions have
different names, no body is resolved twice.
-/

namespace TypeSchema

/-! ### Events and what they are about -/

namespace Event

/-- The definition that was added. -/
def definition? : Event → Option String
  | definitionAdded name => some name
  | _ => none

/-- The interface from whose schema inherited members are missing. -/
def omission? : Event → Option String
  | inheritanceOmitted name _ => some name
  | _ => none

/-- Neither a definition nor a warning. -/
structure IsRemark (event : Event) : Prop where
  definition?_eq : event.definition? = none
  level_eq : event.level = .debug

end Event

/-- The warnings that resolving the body of a declaration gives rise to by itself. -/
def Declaration.omissions : Declaration → List Event
  | .interface _ name _ bases =>
    if bases.isEmpty then [] else [.inheritanceOmitted name (bases.map BaseType.name)]
  | .enum _ _ _ | .enumMember _ | .typeAlias _ _ _ | .other _ _ _ | .foreign _ _ _ => []

/-- Looking up the value of an enum member is remarked on at most. -/
def Environment.RemarksOnly (env : Environment) : Prop :=
  ∀ member, ∀ event ∈ env.memberEvents member, event.IsRemark

theorem Environment.remarksOnly_ofTable (table : DeclarationTable) :
    (ofTable table).RemarksOnly := by
  intro member event hevent
  have hinitializer : event ∈ DeclarationTable.initializerEvents member := by
    change event ∈ table.memberEvents member at hevent
    unfold DeclarationTable.memberEvents at hevent
    split at hevent
    · cases hevent
    · exact hevent
  unfold DeclarationTable.initializerEvents at hinitializer
  split at hinitializer
  · split at hinitializer
    · obtain rfl := List.mem_singleton.mp hinitializer
      exact ⟨rfl, rfl⟩
    · cases hinitializer
  · cases hinitializer

namespace Resolve

/-! ### Resolutions that report -/

/-- Events to record before the body of a declaration is resolved. -/
abbrev Report := Declaration → List Event

/-- `typeWithin`, but the body of a declaration is reported before it is resolved. -/
def reportingWithin (env : Environment) (policy : Policy) (report : Report) :
    (budget : Nat) → TypeExpr → Resolve Schema
  | 0, _ => throw .depthExceeded
  | budget + 1, type =>
    let resolve := reportingWithin env policy report budget
    step env policy resolve
      (fun first => do
        record (report first)
        declaration env resolve first)
      type

/-- Something that happens in a resolution. -/
inductive Entry where
  | event (event : Event)
  | body (declaration : Declaration)

namespace Entry

def told (report : Report) : Entry → List Event
  | event recorded => [recorded]
  | body declaration => report declaration

def event? : Entry → Option Event
  | event recorded => some recorded
  | body _ => none

def body? : Entry → Option Declaration
  | event _ => none
  | body declaration => some declaration

end Entry

/-- What happens in a resolution, in order. -/
structure Journal where
  entries : List Entry

namespace Journal

/-- The events that are recorded when bodies are reported. -/
def told (report : Report) (journal : Journal) : List Event :=
  journal.entries.flatMap (Entry.told report)

def events (journal : Journal) : List Event := journal.entries.filterMap Entry.event?

/-- The declarations whose bodies are resolved. -/
def bodies (journal : Journal) : List Declaration := journal.entries.filterMap Entry.body?

def ofEvents (events : List Event) : Journal := ⟨events.map .event⟩

def append (first second : Journal) : Journal := ⟨first.entries ++ second.entries⟩

/-- The journal of a body that is reported. -/
def reported (declaration : Declaration) (journal : Journal) : Journal :=
  ⟨.body declaration :: journal.entries⟩

variable {report : Report} {first second journal : Journal} {events : List Event}
  {declaration : Declaration}

@[simp] theorem told_ofEvents : (ofEvents events).told report = events := by
  induction events with
  | nil => rfl
  | cons event rest ih => exact congrArg (event :: ·) ih

@[simp] theorem events_ofEvents : (ofEvents events).events = events := by
  induction events with
  | nil => rfl
  | cons event rest ih => exact congrArg (event :: ·) ih

@[simp] theorem bodies_ofEvents : (ofEvents events).bodies = [] := by
  induction events with
  | nil => rfl
  | cons event rest ih => exact ih

@[simp] theorem told_append :
    (first.append second).told report = first.told report ++ second.told report := by
  simp [told, append]

@[simp] theorem events_append : (first.append second).events = first.events ++ second.events := by
  simp [Journal.events, append]

@[simp] theorem bodies_append : (first.append second).bodies = first.bodies ++ second.bodies := by
  simp [bodies, append]

@[simp] theorem told_reported :
    (journal.reported declaration).told report = report declaration ++ journal.told report := rfl

@[simp] theorem events_reported : (journal.reported declaration).events = journal.events := rfl

@[simp] theorem bodies_reported :
    (journal.reported declaration).bodies = declaration :: journal.bodies := rfl

theorem told_nothing : journal.told (fun _ => []) = journal.events := by
  obtain ⟨entries⟩ := journal
  induction entries with
  | nil => rfl
  | cons entry rest ih =>
      cases entry with
      | event event => exact congrArg (event :: ·) ih
      | body declaration => exact ih

end Journal

/-- How a journal fits the names that are defined before and after: definitions are added as it
says, in `share` mode those of the bodies, and there is no warning but those of the bodies and the
given ones. -/
structure Journal.Fits (env : Environment) (mode : ReferenceMode) (warnings : List Event)
    (journal : Journal) (before after : List String) : Prop where
  defined : after = before ++ journal.events.filterMap Event.definition?
  once : mode = .share → (journal.bodies.map Declaration.qualifiedName).Perm
    (journal.events.filterMap Event.definition?)
  warned : journal.events.filter (fun event => event.level = .warning) =
    warnings ++ journal.bodies.flatMap Declaration.omissions
  isFirst : ∀ declaration ∈ journal.bodies, env.IsFirst declaration

namespace Journal.Fits

variable {env : Environment} {mode : ReferenceMode} {warnings : List Event}
  {journal journal' : Journal} {before middle after : List String} {events : List Event}
  {first : Declaration}

theorem ofEvents (remarks : ∀ event ∈ events, event.IsRemark) :
    (Journal.ofEvents events).Fits env mode [] before before := by
  have hnone : events.filterMap Event.definition? = [] :=
    List.filterMap_eq_nil_iff.mpr fun event hevent => (remarks event hevent).definition?_eq
  have hdebug : events.filter (fun event => event.level = .warning) = [] := by
    rw [List.filter_eq_nil_iff]
    intro event hevent
    simp [(remarks event hevent).level_eq]
  constructor <;> simp [hnone, hdebug]

theorem append (h : journal.Fits env mode warnings before middle)
    (h' : journal'.Fits env mode [] middle after) :
    (journal.append journal').Fits env mode warnings before after where
  defined := by
    rw [h'.defined, h.defined, events_append, List.filterMap_append, List.append_assoc]
  once := by
    intro hmode
    rw [events_append, bodies_append, List.filterMap_append, List.map_append]
    exact (h.once hmode).append (h'.once hmode)
  warned := by
    rw [events_append, bodies_append, List.filter_append, List.flatMap_append, h.warned, h'.warned,
      List.nil_append, List.append_assoc]
  isFirst := by
    intro declaration hdeclaration
    rw [bodies_append] at hdeclaration
    exact (List.mem_append.mp hdeclaration).elim (h.isFirst declaration) (h'.isFirst declaration)

/-- Warnings come first. -/
theorem warn (h : journal.Fits env mode [] before after)
    (hdefinition : ∀ event ∈ warnings, event.definition? = none)
    (hlevel : ∀ event ∈ warnings, event.level = .warning) :
    ((Journal.ofEvents warnings).append journal).Fits env mode warnings before after := by
  have hnone : warnings.filterMap Event.definition? = [] :=
    List.filterMap_eq_nil_iff.mpr hdefinition
  have hkept : warnings.filter (fun event => event.level = .warning) = warnings :=
    List.filter_eq_self.mpr fun event hevent => decide_eq_true (hlevel event hevent)
  constructor
  · simpa [hnone] using h.defined
  · simpa [hnone] using h.once
  · simpa [hkept] using h.warned
  · simpa using h.isFirst

theorem isFirst_reported (h : journal.Fits env mode warnings before after)
    (hfirst : env.IsFirst first) :
    ∀ declaration ∈ (journal.reported first).bodies, env.IsFirst declaration := by
  intro declaration hdeclaration
  rw [bodies_reported] at hdeclaration
  obtain rfl | hdeclaration := List.mem_cons.mp hdeclaration
  · exact hfirst
  · exact h.isFirst declaration hdeclaration

/-- The body is resolved and the declaration is not defined, which `share` mode does not do. -/
theorem inlined (h : journal.Fits env mode first.omissions before after)
    (hfirst : env.IsFirst first) (hmode : mode ≠ .share) :
    (journal.reported first).Fits env mode [] before after where
  defined := by simpa using h.defined
  once := fun hshare => absurd hshare hmode
  warned := by simpa using h.warned
  isFirst := h.isFirst_reported hfirst

/-- The body is resolved, and then the declaration is defined. -/
theorem recorded (h : journal.Fits env mode first.omissions before after)
    (hfirst : env.IsFirst first) :
    ((journal.reported first).append (.ofEvents [.definitionAdded first.qualifiedName])).Fits env
      mode [] before (after ++ [first.qualifiedName]) where
  defined := by simp [h.defined, Event.definition?]
  once := by
    intro hmode
    have hbodies := (h.once hmode).cons first.qualifiedName
    simpa [Event.definition?] using hbodies.trans (List.perm_append_singleton _ _).symm
  warned := by
    have hadded : (Event.definitionAdded first.qualifiedName).level ≠ .warning := by
      simp [Event.level]
    simpa [hadded] using h.warned
  isFirst := by simpa using h.isFirst_reported hfirst

end Journal.Fits

end Resolve

def Context.withEvents (c : Context) (events : List Event) : Context := { c with events }

namespace Resolve

open Context

variable {env : Environment} {mode : ReferenceMode} {policy : Policy} {c c' : Context}
  {schema : Schema} {first : Declaration} {others : List Declaration} {type : TypeExpr}
  {report : Report}

/-- There is one journal for all ways to report bodies, which fits the states. The events from
before do not matter. -/
def Journaled (env : Environment) (mode : ReferenceMode) (warnings : List Event) {β : Type}
    (run : Report → Context → β → Context → Prop) (c : Context) (result : β) (c' : Context) :
    Prop :=
  ∃ journal : Journal, journal.Fits env mode warnings c.defined c'.defined ∧
    ∀ report earlier, run report (c.withEvents earlier) result
      (c'.withEvents (earlier ++ journal.told report))

/-- How the body of a declaration is resolved after it is reported. -/
def Reported (env : Environment) (report : Report) (R : Account TypeExpr Schema) :
    Account Declaration Schema :=
  fun first c schema c' => BodyRule env R first (c.note (report first)) schema c'

theorem reportingWithin_succ_eq_ok_iff {budget : Nat} :
    reportingWithin env policy report (budget + 1) type c = .ok schema c' ↔
      TypeRule env policy (Gives (reportingWithin env policy report budget))
        (Reported env report (Gives (reportingWithin env policy report budget))) type c schema
          c' := by
  have hbody : ∀ first c schema c',
      Gives (fun first => do
        record (report first)
        declaration env (reportingWithin env policy report budget) first) first c schema c' ↔
        Reported env report (Gives (reportingWithin env policy report budget)) first c schema
          c' := by
    intro first c schema c'
    rw [Gives, bind_eq_ok_iff, Reported, ← declaration_eq_ok_iff]
    constructor
    · rintro ⟨_, _, ⟨⟩, hrun⟩
      exact hrun
    · exact fun hrun => ⟨_, _, rfl, hrun⟩
  rw [reportingWithin, step_eq_ok_iff]
  exact ⟨TypeRule.mono (fun _ _ _ _ => id) fun _ _ _ _ => (hbody _ _ _ _).mp,
    TypeRule.mono (fun _ _ _ _ => id) fun _ _ _ _ => (hbody _ _ _ _).mpr⟩

section Rules

variable {R : Report → Account TypeExpr Schema} {warnings : List Event} {β γ : Type}
  {run : Report → Context → β → Context → Prop} {result : β}

theorem Journaled.imp {run' : Report → Context → γ → Context → Prop} {result' : γ}
    (h : Journaled env mode warnings run c result c')
    (himp : ∀ report c c', run report c result c' → run' report c result' c') :
    Journaled env mode warnings run' c result' c' := by
  obtain ⟨journal, hfits, hrun⟩ := h
  exact ⟨journal, hfits, fun report earlier => himp _ _ _ (hrun report earlier)⟩

/-- What only remarks on something does the same however bodies are reported. -/
theorem Journaled.remark {events : List Event} (remarks : ∀ event ∈ events, event.IsRemark)
    (h : ∀ report earlier, run report (c.withEvents earlier) result
      (c.withEvents (earlier ++ events))) :
    Journaled env mode [] run c result (c.note events) := by
  refine ⟨.ofEvents events, .ofEvents remarks, fun report earlier => ?_⟩
  rw [Journal.told_ofEvents]
  exact h report earlier

theorem Journaled.nothing (h : ∀ report earlier, run report (c.withEvents earlier) result
      (c.withEvents earlier)) : Journaled env mode [] run c result c := by
  have hnote : Journaled env mode [] run c result (c.note []) :=
    .remark (by simp) (by simpa using h)
  rwa [note_nil] at hnote

/-- Remarks before something that is journaled. -/
theorem Journaled.note {events : List Event} (remarks : ∀ event ∈ events, event.IsRemark)
    (h : Journaled env mode [] run (c.note events) result c') :
    Journaled env mode [] (fun report c => run report (c.note events)) c result c' := by
  obtain ⟨journal, hfits, hrun⟩ := h
  refine ⟨(Journal.ofEvents events).append journal,
    (Journal.Fits.ofEvents remarks).append hfits, fun report earlier => ?_⟩
  rw [Journal.told_append, Journal.told_ofEvents, ← List.append_assoc]
  exact hrun report (earlier ++ events)

theorem sequence_journaled {types : List TypeExpr} {schemas : List Schema}
    (h : Sequence (fun type => Journaled env mode [] fun report => R report type) types c schemas
      c') :
    Journaled env mode [] (fun report => Sequence (R report) types) c schemas c' := by
  induction h with
  | nil => exact .nothing fun _ _ => .nil
  | cons head _ ih =>
      obtain ⟨journal, hfits, hhead⟩ := head
      obtain ⟨journal', hfits', htail⟩ := ih
      refine ⟨journal.append journal', hfits.append hfits', fun report earlier => ?_⟩
      rw [Journal.told_append, ← List.append_assoc]
      exact .cons (hhead report earlier) (htail report _)

theorem memberRule_journaled {seen : List String} {members : List Member} {schemas : List Schema}
    (h : MemberRule (fun type => Journaled env mode [] fun report => R report type) seen members c
      schemas c') :
    Journaled env mode [] (fun report => MemberRule (R report) seen members) c schemas c' := by
  induction h with
  | nil => exact .nothing fun _ _ => .nil
  | cons plain head fresh _ ih =>
      obtain ⟨journal, hfits, hhead⟩ := head
      obtain ⟨journal', hfits', htail⟩ := ih
      refine ⟨journal.append journal', hfits.append hfits', fun report earlier => ?_⟩
      rw [Journal.told_append, ← List.append_assoc]
      exact .cons plain (hhead report earlier) fresh (htail report _)

theorem bodyRule_journaled (remarksOnly : env.RemarksOnly)
    (h : BodyRule env (fun type => Journaled env mode [] fun report => R report type) first c schema
      c') :
    Journaled env mode first.omissions (fun report => BodyRule env (R report) first) c schema
      c' := by
  cases h with
  | @enum _ _ members _ _ values =>
      have hremarks : ∀ event ∈ members.flatMap env.memberEvents, event.IsRemark := by
        intro event hevent
        obtain ⟨member, -, hmember⟩ := List.mem_flatMap.mp hevent
        exact remarksOnly member event hmember
      exact .remark hremarks fun _ _ => .enum values
  | @interface location name _ bases _ _ _ contents =>
      obtain ⟨journal, hfits, hrun⟩ := memberRule_journaled contents
      have hwarnings : ∀ event ∈ (Declaration.interface location name [] bases).omissions,
          event = .inheritanceOmitted name (bases.map BaseType.name) := by
        intro event hevent
        rw [Declaration.omissions] at hevent
        split at hevent
        · cases hevent
        · exact List.mem_singleton.mp hevent
      refine ⟨_, hfits.warn ?_ ?_, fun report earlier => ?_⟩
      · intro event hevent
        rw [hwarnings event hevent]
        rfl
      · intro event hevent
        rw [hwarnings event hevent]
        rfl
      · rw [Journal.told_append, Journal.told_ofEvents, ← List.append_assoc]
        exact .interface (hrun report _)
  | typeAlias aliased => exact aliased.imp fun _ _ _ => .typeAlias

/-- The report comes before everything else in the journal of a body. -/
theorem exists_reported
    (h : Journaled env mode warnings (fun report => BodyRule env (R report) first) c schema c') :
    ∃ journal : Journal, journal.Fits env mode warnings c.defined c'.defined ∧
      ∀ report earlier, Reported env report (R report) first (c.withEvents earlier) schema
        (c'.withEvents (earlier ++ (journal.reported first).told report)) := by
  obtain ⟨journal, hfits, hrun⟩ := h
  refine ⟨journal, hfits, fun report earlier => ?_⟩
  rw [Journal.told_reported, ← List.append_assoc]
  exact hrun report (earlier ++ report first)

theorem namedRule_journaled (hfirst : env.IsFirst first)
    (h : NamedRule mode first.qualifiedName
      (Journaled env mode first.omissions fun report => BodyRule env (R report) first) c schema
        c') :
    Journaled env mode []
      (fun report => NamedRule mode first.qualifiedName (Reported env report (R report) first)) c
        schema c' := by
  cases h with
  | finished found => exact .nothing fun _ _ => .finished found
  | reentered missing entered =>
      refine ⟨.ofEvents [.recursiveReference first.qualifiedName c.resolving.reverse],
        .ofEvents ?_, fun report earlier => ?_⟩
      · intro event hevent
        obtain rfl := List.mem_singleton.mp hevent
        exact ⟨rfl, rfl⟩
      · rw [Journal.told_ofEvents]
        exact .reentered missing entered
  | recorded missing fresh resolved kept =>
      obtain ⟨journal, hfits, hrun⟩ := exists_reported resolved
      refine ⟨(journal.reported first).append (.ofEvents [.definitionAdded first.qualifiedName]),
        ?_, fun report earlier => ?_⟩
      · rw [defined_define]
        exact hfits.recorded hfirst
      · have hnamed := NamedRule.recorded (c := c.withEvents earlier) missing fresh
          (hrun report earlier) kept
        rw [Journal.told_append, Journal.told_ofEvents, ← List.append_assoc]
        exact hnamed
  | inlined missing fresh resolved dropped =>
      obtain ⟨journal, hfits, hrun⟩ := exists_reported resolved
      refine ⟨journal.reported first, hfits.inlined hfirst fun hmode => dropped (.inl hmode),
        fun report earlier => ?_⟩
      have hnamed := NamedRule.inlined (c := c.withEvents earlier) missing fresh
        (hrun report earlier) dropped
      exact hnamed

theorem isRemark_of_mem_lookupEvents {name : String} {found : List Declaration} {event : Event}
    (h : event ∈ Environment.lookupEvents name found) : event.IsRemark := by
  unfold Environment.lookupEvents at h
  split at h
  · obtain rfl := List.mem_singleton.mp h
    exact ⟨rfl, rfl⟩
  · cases h

theorem isRemark_of_mem_ignored {name : String} {arguments : List TypeExpr} {event : Event}
    (h : event ∈ if arguments.isEmpty then [] else [.ignoredArguments name]) : event.IsRemark := by
  split at h
  · cases h
  · obtain rfl := List.mem_singleton.mp h
    exact ⟨rfl, rfl⟩

theorem referenceRule_journaled (named : env.WellNamed) (remarksOnly : env.RemarksOnly)
    {name : String} {arguments : List TypeExpr}
    (h : ReferenceRule env policy
      (BodyRule env fun type => Journaled env policy.mode [] fun report => R report type) name
        arguments c schema c') :
    Journaled env policy.mode []
      (fun report => ReferenceRule env policy (Reported env report (R report)) name arguments) c
        schema c' := by
  cases h with
  | @member member _ _ _ _ found value ends =>
      rw [note_note, note_note] at ends
      subst ends
      refine .remark ?_ fun report earlier => .member found value ?_
      · intro event hevent
        obtain hevent | hevent := List.mem_append.mp hevent
        · exact isRemark_of_mem_lookupEvents hevent
        · obtain hevent | hevent := List.mem_append.mp hevent
          · exact isRemark_of_mem_ignored hevent
          · exact remarksOnly member event hevent
      · rw [note_note, note_note]
        rfl
  | definition found followed inner =>
      have hnamed := namedRule_journaled (named.isFirst found)
        (inner.mono fun _ _ _ => bodyRule_journaled (R := R) remarksOnly)
      have hignored := hnamed.note fun event => isRemark_of_mem_ignored
      have hlooked := hignored.note fun event => isRemark_of_mem_lookupEvents
      exact hlooked.imp fun _ _ _ => .definition found followed

/-- **One step is journaled** when the steps inside it are. -/
theorem typeRule_journaled (named : env.WellNamed) (remarksOnly : env.RemarksOnly)
    (h : TypeRule env policy (fun type => Journaled env policy.mode [] fun report => R report type)
      (BodyRule env fun type => Journaled env policy.mode [] fun report => R report type) type c
        schema c') :
    Journaled env policy.mode []
      (fun report => TypeRule env policy (R report) (Reported env report (R report)) type) c schema
        c' := by
  cases h with
  | keyword meaning => exact .nothing fun _ _ => .keyword meaning
  | literal meaning => exact .nothing fun _ _ => .literal meaning
  | array inner => exact inner.imp fun _ _ _ => .array
  | union inner => exact (sequence_journaled inner).imp fun _ _ _ => .union
  | intersection inner => exact (sequence_journaled inner).imp fun _ _ _ => .intersection
  | parenthesized inner => exact inner.imp fun _ _ _ => .parenthesized
  | tuple inner => exact (sequence_journaled inner).imp fun _ _ _ => .tuple
  | object inner => exact (memberRule_journaled inner).imp fun _ _ _ => .object
  | reference inner =>
      exact (referenceRule_journaled named remarksOnly inner).imp fun _ _ _ => .reference

end Rules

/-- **Resolutions are journaled.** For every successful resolution there is a journal that tells
what is recorded however bodies are reported. -/
theorem typeWithin_journaled (named : env.WellNamed) (remarksOnly : env.RemarksOnly) {budget : Nat}
    (h : typeWithin env policy budget type c = .ok schema c') :
    Journaled env policy.mode []
      (fun report => Gives (reportingWithin env policy report budget) type) c schema c' := by
  induction budget generalizing type c schema c' with
  | zero => exact absurd h typeWithin_zero_ne_ok
  | succ budget ih =>
      have hrule := typeRule_journaled
        (R := fun report => Gives (reportingWithin env policy report budget)) named remarksOnly
        ((typeWithin_succ_eq_ok_iff.mp h).mono (fun _ _ _ _ hrun => ih hrun)
          fun _ _ _ _ hbody => hbody.mono fun _ _ _ _ hrun => ih hrun)
      exact hrule.imp fun _ _ _ => reportingWithin_succ_eq_ok_iff.mpr

/-- Without anything to report, bodies are resolved as usual. -/
theorem reportingWithin_nothing (budget : Nat) :
    reportingWithin env policy (fun _ => []) budget = typeWithin env policy budget := by
  induction budget with
  | zero => rfl
  | succ budget ih =>
      funext type
      rw [reportingWithin, typeWithin, ih]
      have hbody : ∀ first, (do
          record []
          declaration env (typeWithin env policy budget) first) =
            declaration env (typeWithin env policy budget) first := by
        intro first
        funext c
        change declaration env (typeWithin env policy budget) first (c.note []) = _
        rw [note_nil]
      simp only [hbody]

end Resolve

/-! ### What the journal of a run says -/

/-- What is defined when the computation starts is defined in the same way when it ends. -/
def Resolve.KeepsTable {α : Type} (m : Resolve α) : Prop :=
  ∀ c a c', m c = .ok a c' → c.deps <+: c'.deps

theorem Resolve.typeWithin_keepsTable (env : Environment) (policy : Policy) (budget : Nat)
    (type : TypeExpr) : KeepsTable (typeWithin env policy budget type) :=
  fun _ _ _ h => (typeWithin_yields [] h).1.deps_extended

theorem Resolve.declaration_keepsTable (env : Environment) (policy : Policy) (budget : Nat)
    (first : Declaration) : KeepsTable (declaration env (typeWithin env policy budget) first) := by
  intro c schema c' h
  have hyields : c.Yields [] schema.references c' := bodyRule_yields
    ((declaration_eq_ok_iff.mp h).mono fun _ _ _ _ hrun => typeWithin_yields [] hrun)
  exact hyields.1.deps_extended

/-- The journal of a run from the empty state. -/
theorem resolveWithin_journaled {budget : Nat} {env : Environment} {policy : Policy}
    {type : TypeExpr} {model : Model} (named : env.WellNamed) (remarksOnly : env.RemarksOnly)
    (h : (resolveWithin budget env policy type).1 = .ok model) :
    ∃ journal : Resolve.Journal, journal.Fits env policy.mode [] [] model.defined ∧
      journal.events = (resolveWithin budget env policy type).2 ∧
      ∀ report, ∃ c, Resolve.reportingWithin env policy report budget type {} = .ok model.root c ∧
        c.deps = model.deps ∧ c.events = journal.told report := by
  obtain ⟨c, hrun, hdeps⟩ := resolveWithin_eq_ok_iff.mp h
  obtain ⟨journal, hfits, hreporting⟩ := Resolve.typeWithin_journaled named remarksOnly hrun
  have hdefined : c.defined = model.defined := by rw [Context.defined, Model.defined, hdeps]
  refine ⟨journal, hdefined ▸ hfits, ?_, fun report => ⟨_, hreporting report [], hdeps, rfl⟩⟩
  have hplain : Resolve.reportingWithin env policy (fun _ => []) budget type {} =
      .ok model.root (c.withEvents (journal.told fun _ => [])) := hreporting _ []
  rw [Resolve.reportingWithin_nothing, Resolve.Journal.told_nothing] at hplain
  have hsame : c = c.withEvents journal.events :=
    (EStateM.Result.ok.inj (hrun.symm.trans hplain)).2
  have hevents : (resolveWithin budget env policy type).2 = c.events := by
    rw [resolveWithin, hrun]
  rw [hevents, hsame]
  rfl

namespace Resolve.Journal.Fits

variable {env : Environment} {mode : ReferenceMode} {journal : Journal} {defined : List String}
  {declaration : Declaration}

/-- Where definitions have different names, no body is resolved twice in `share` mode. -/
theorem names_nodup (h : journal.Fits env .share [] [] defined) (distinct : defined.Nodup) :
    (journal.bodies.map Declaration.qualifiedName).Nodup := by
  rw [(h.once rfl).nodup_iff, ← List.nil_append (journal.events.filterMap _), ← h.defined]
  exact distinct

/-- The bodies are those of the definitions. -/
theorem mem_bodies_iff (h : journal.Fits env .share [] [] defined)
    (hfirst : env.IsFirst declaration) :
    declaration ∈ journal.bodies ↔ declaration.qualifiedName ∈ defined := by
  have hdefined : defined = journal.events.filterMap Event.definition? := by
    rw [h.defined, List.nil_append]
  rw [hdefined, ← (h.once rfl).mem_iff]
  constructor
  · exact List.mem_map_of_mem
  · intro hname
    obtain ⟨other, hother, hsame⟩ := List.mem_map.mp hname
    rwa [← (h.isFirst other hother).eq hfirst hsame]

/-- The interfaces that warnings are about are among the declarations whose bodies are resolved. -/
theorem omissions_sublist (bodies : List Declaration) :
    ((bodies.flatMap Declaration.omissions).filterMap Event.omission?).Sublist
      (bodies.map Declaration.qualifiedName) := by
  induction bodies with
  | nil => exact .slnil
  | cons first rest ih =>
      rw [List.flatMap_cons, List.filterMap_append, List.map_cons]
      have hfirst : (first.omissions.filterMap Event.omission?).Sublist [first.qualifiedName] := by
        cases first with
        | interface location name members bases =>
            rw [Declaration.omissions]
            split
            · exact List.nil_sublist _
            · exact List.Sublist.refl _
        | _ => exact List.nil_sublist _
      exact hfirst.append ih

theorem filterMap_omission?_eq (h : journal.Fits env mode [] [] defined) :
    journal.events.filterMap Event.omission? =
      (journal.bodies.flatMap Declaration.omissions).filterMap Event.omission? := by
  have hwarned := h.warned
  rw [List.nil_append] at hwarned
  rw [← hwarned, List.filterMap_filter]
  congr 1
  funext event
  cases event <;> rfl

/-- There is one warning for an interface whose body is resolved and that extends other ones. -/
theorem count_omission {location : Option Location} {name : String} {members : List Member}
    {bases : List BaseType} (h : journal.Fits env .share [] [] defined) (distinct : defined.Nodup)
    (hbases : bases ≠ [])
    (hbody : Declaration.interface location name members bases ∈ journal.bodies) :
    (journal.events.filterMap Event.omission?).count name = 1 := by
  have hown : Event.inheritanceOmitted name (bases.map BaseType.name) ∈
      (Declaration.interface location name members bases).omissions := by
    simp [Declaration.omissions, hbases]
  rw [h.filterMap_omission?_eq]
  apply List.count_eq_one_of_mem
  · exact (h.names_nodup distinct).sublist (omissions_sublist _)
  · exact List.mem_filterMap.mpr ⟨_, List.mem_flatMap.mpr ⟨_, hbody, hown⟩, rfl⟩

end Resolve.Journal.Fits

/-- In `share` mode the bodies that are resolved are those of the declarations that are reached. -/
theorem mem_bodies_iff_reaches {budget : Nat} {env : Environment} {aliases : Bool}
    {type : TypeExpr} {model : Model} {journal : Resolve.Journal} (named : env.WellNamed)
    (h : (resolveWithin budget env ⟨.share, aliases⟩ type).1 = .ok model)
    (hfits : journal.Fits env .share [] [] model.defined) (declaration : Declaration) :
    declaration ∈ journal.bodies ↔
      env.Reaches aliases [] (.type type) (.declaration declaration) := by
  obtain ⟨c, hrun, hdeps⟩ := resolveWithin_eq_ok_iff.mp h
  have hnames : c.defined = model.defined := by rw [Context.defined, Model.defined, hdeps]
  have hgrows := Resolve.typeWithin_grows named hrun
  constructor
  · intro hbody
    have hfirst := hfits.isFirst declaration hbody
    have hname := (hfits.mem_bodies_iff hfirst).mp hbody
    obtain hold | ⟨other, hsame, hreaches⟩ := hgrows.defined _ (hnames ▸ hname)
    · cases hold
    · rwa [hfirst.eq (hreaches.isFirst named) hsame.symm]
  · intro hreaches
    have hopen : c.resolving = [] := hgrows.resolving_eq
    obtain ⟨-, hfinishes⟩ := Resolve.typeWithin_completes named hrun Context.complete_empty
    refine (hfits.mem_bodies_iff (hreaches.isFirst named)).mpr ?_
    rw [← hnames]
    exact (hfinishes _ (hopen ▸ hreaches)).2 declaration rfl

/-- **Declarations are resolved once.** The definitions that are recorded are those of the table,
each of them once and in the order of the table, and what the table holds stays as it is whatever
type expression or declaration body is resolved from then on. In `share` mode the bodies that are
resolved, which show when they are reported, are those of the declarations that are reached, each of
them once; so there is one warning for every interface that is reached and extends other ones, and
no other warning. -/
theorem definitions_once {budget : Nat} {declarations : List Declaration} {policy : Policy}
    {type : TypeExpr} {model : Model}
    (h : (resolveWithin budget (.ofTable (.ofList declarations)) policy type).1 = .ok model) :
    let env : Environment := .ofTable (.ofList declarations)
    let events := (resolveWithin budget env policy type).2
    (events.filterMap Event.definition? = model.defined ∧ model.defined.Nodup) ∧
      (∀ budget, (∀ part, Resolve.KeepsTable (Resolve.typeWithin env policy budget part)) ∧
        ∀ first, Resolve.KeepsTable
          (Resolve.declaration env (Resolve.typeWithin env policy budget) first)) ∧
      (policy.mode = .share → ∃ journal : Resolve.Journal,
        (journal.events = events ∧ ∀ report, ∃ c,
          Resolve.reportingWithin env policy report budget type {} = .ok model.root c ∧
            c.deps = model.deps ∧ c.events = journal.told report) ∧
        journal.bodies.Nodup ∧
        (∀ declaration, declaration ∈ journal.bodies ↔
          env.Reaches policy.aliases [] (.type type) (.declaration declaration)) ∧
        events.filter (fun event => event.level = .warning) =
          journal.bodies.flatMap Declaration.omissions ∧
        ∀ location name members bases, bases ≠ [] → env.Reaches policy.aliases [] (.type type)
            (.declaration (.interface location name members bases)) →
          (events.filterMap Event.omission?).count name = 1) := by
  intro env events
  have named : env.WellNamed := Environment.wellNamed_ofTable declarations
  have distinct : model.defined.Nodup := (resolveWithin_coherent h).1
  obtain ⟨journal, hfits, hevents, hreporting⟩ :=
    resolveWithin_journaled named (Environment.remarksOnly_ofTable _) h
  have hdefined : events.filterMap Event.definition? = model.defined := by
    rw [hfits.defined, List.nil_append, hevents]
  refine ⟨⟨hdefined, distinct⟩, ?_, fun hshare => ⟨journal, ⟨hevents, hreporting⟩, ?_⟩⟩
  · exact fun budget => ⟨Resolve.typeWithin_keepsTable env policy budget,
      Resolve.declaration_keepsTable env policy budget⟩
  · obtain ⟨mode, aliases⟩ := policy
    obtain rfl : mode = .share := hshare
    have hreached := mem_bodies_iff_reaches named h hfits
    have hwarned := hfits.warned
    rw [hevents, List.nil_append] at hwarned
    refine ⟨(hfits.names_nodup distinct).of_map _, hreached, hwarned, ?_⟩
    intro location name members bases hbases hreaches
    have hcount := hfits.count_omission distinct hbases ((hreached _).mpr hreaches)
    rwa [hevents] at hcount

/-- An interface that extends another one and has a property of its own type, at two places. -/
theorem definitions_once_recursive :
    let first : Declaration := .interface none "A" [.property none ⟨.identifier, "a", none⟩
      (some (.reference none "A" [])) true] [⟨none, "Base", []⟩]
    let env : Environment := .ofTable (.ofList [first])
    let type : TypeExpr :=
      .union none [.reference none "A" [], .array none (.reference none "A" [])]
    let events := (resolveWithin 5 env ⟨.share, false⟩ type).2
    (resolveWithin 5 env ⟨.share, false⟩ type).1 =
        .ok ⟨.union [.reference "A", .array (.reference "A")],
          [("A", .object [.member "a" true (.reference "A")])]⟩ ∧
      events.filterMap Event.definition? = ["A"] ∧
      (events.filterMap Event.omission?).count "A" = 1 := by
  intro first env type events
  have h : (resolveWithin 5 env ⟨.share, false⟩ type).1 =
      .ok ⟨.union [.reference "A", .array (.reference "A")],
        [("A", .object [.member "a" true (.reference "A")])]⟩ := rfl
  have hreaches : env.Reaches false [] (.type type) (.declaration first) :=
    .tail (.single (.part List.mem_cons_self)) (.definition rfl rfl List.not_mem_nil)
  obtain ⟨⟨hdefined, -⟩, -, hshare⟩ := definitions_once h
  obtain ⟨journal, -, -, -, -, hcount⟩ := hshare rfl
  exact ⟨h, hdefined, hcount none "A" _ _ (List.cons_ne_nil _ _) hreaches⟩

end TypeSchema
