import TypeSchema.Proofs.Command.Functions
import TypeSchema.Proofs.Command.Recording
import TypeSchema.Proofs.Json.Parts

/-!
# Asking for functions by name

A run that is asked for some functions does with them what a run over all functions does. Every
function is resolved by itself, so a run leaves out the functions that it is not asked for and
neither resolves nor writes the others differently; the fields of the result keep their order.

The command line that a run records is another matter. A name of a function is tried as a path
there, and one that is too long for a path breaks off the run.
-/

namespace TypeSchema

/-! ### Fields by name -/

namespace Json

variable {key : String} {value : Json}

/-- A field that is set keeps its place among the fields that are left. -/
theorem filter_insertField (p : String → Bool) (fields : List (String × Json)) :
    (insertField fields key value).filter (fun field => p field.1) =
      if p key then insertField (fields.filter fun field => p field.1) key value
      else fields.filter fun field => p field.1 := by
  have hmem : key ∈ (fields.filter fun field => p field.1).map Prod.fst ↔
      key ∈ fields.map Prod.fst ∧ p key := by
    simp only [List.mem_map, List.mem_filter]
    constructor
    · rintro ⟨field, ⟨hfield, hp⟩, rfl⟩
      exact ⟨⟨field, hfield, rfl⟩, hp⟩
    · rintro ⟨⟨field, hfield, rfl⟩, hp⟩
      exact ⟨field, ⟨hfield, hp⟩, rfl⟩
  by_cases hkey : key ∈ fields.map Prod.fst
  · have hname : ∀ field : String × Json,
        (if field.1 = key then (key, value) else field).1 = field.1 := by
      intro field
      split_ifs with h
      · exact h.symm
      · rfl
    rw [insertField_of_mem hkey, List.filter_map]
    simp only [Function.comp_def, hname]
    by_cases hp : p key
    · rw [if_pos hp, insertField_of_mem (hmem.mpr ⟨hkey, hp⟩)]
    · -- The field that is set is none of those that are left.
      rw [if_neg hp]
      refine (List.map_congr_left fun field hfield => if_neg ?_).trans (List.map_id _)
      rintro rfl
      exact hp (List.mem_filter.mp hfield).2
  · rw [insertField_of_not_mem hkey, List.filter_append]
    by_cases hp : p key
    · rw [if_pos hp, insertField_of_not_mem fun h => hkey (hmem.mp h).1]
      simp [hp]
    · simp [hp]

/-- Fewer fields are set out wherever all of them are. -/
theorem stop?_of_filter {room : Nat} {p : String × Json → Bool}
    {header header' fields : List (String × Json)}
    (texts : ∀ field ∈ header', ∃ s, field.2 = text s)
    (h : (object (header ++ [(key, object fields)])).stop? room = none) :
    (object (header' ++ [(key, object (fields.filter p))])).stop? room = none := by
  cases room with
  | zero =>
      rw [stop?] at h
      cases h
  | succ room =>
      rw [stop?, stopInFields?_eq_findSome?, List.findSome?_eq_none_iff] at h ⊢
      have hfields := h (key, object fields) (List.mem_append_right _ (List.mem_singleton_self _))
      -- There is room inside the object of the fields, and so for a text beside it.
      cases room with
      | zero =>
          rw [stop?] at hfields
          cases hfields
      | succ room =>
          rw [stop?, stopInFields?_eq_findSome?, List.findSome?_eq_none_iff] at hfields
          refine List.forall_mem_append.mpr ⟨fun field hfield => ?_,
            List.forall_mem_singleton.mpr ?_⟩
          · obtain ⟨s, hs⟩ := texts field hfield
            rw [hs, stop?]
          · rw [stop?, stopInFields?_eq_findSome?, List.findSome?_eq_none_iff]
            exact fun field hfield => hfields field (List.mem_filter.mp hfield).1

end Json

namespace Command

theorem fieldsOf_filter (p : String → Bool) (entries : List (String × Json)) :
    fieldsOf (entries.filter fun entry => p entry.1) =
      (fieldsOf entries).filter fun field => p field.1 := by
  induction entries using List.reverseRecOn with
  | nil => rfl
  | append_singleton entries entry ih =>
      have hconcat : fieldsOf (entries ++ [entry]) =
          Json.insertField (fieldsOf entries) entry.1 entry.2 := by
        rw [fieldsOf, List.foldl_append]
        rfl
      rw [hconcat, Json.filter_insertField, ← ih, List.filter_append]
      by_cases hentry : p entry.1
      · simp only [if_pos hentry, List.filter_cons, List.filter_nil]
        rw [fieldsOf, List.foldl_append]
        rfl
      · simp only [if_neg hentry, List.filter_cons, List.filter_nil, List.append_nil]

/-- What is found under the names of functions is filtered by name as the functions are. -/
theorem filterMap_filter_name {α : Type} {f : Signature → Option (String × α)}
    (h : ∀ signature entry, f signature = some entry → entry.1 = signature.name)
    (p : String → Bool) (signatures : List Signature) :
    (signatures.filter fun signature => p signature.name).filterMap f =
      (signatures.filterMap f).filter fun entry => p entry.1 := by
  induction signatures with
  | nil => rfl
  | cons signature rest ih =>
      cases hf : f signature with
      | none =>
          rw [List.filterMap_cons_none hf, ← ih, List.filter_cons]
          split_ifs
          · exact List.filterMap_cons_none hf
          · rfl
      | some entry =>
          have hname := h signature entry hf
          rw [List.filterMap_cons_some hf, List.filter_cons, List.filter_cons, hname, ← ih]
          split_ifs
          · exact List.filterMap_cons_some hf
          · rfl

section Functions

variable {limits : Limits} {env : Environment} {policy : Policy} {signature : Signature}

theorem written?_name {entry : String × Json}
    (h : written? limits env policy signature = some entry) : entry.1 = signature.name := by
  obtain ⟨schema, -, h⟩ := Option.bind_eq_some_iff.mp h
  obtain ⟨json, -, rfl⟩ := Option.map_eq_some_iff.mp h
  rfl

theorem reported?_name {entry : String × Failure}
    (h : reported? limits env policy signature = some entry) : entry.1 = signature.name := by
  rw [reported?] at h
  split at h
  · obtain rfl := Option.some.inj h
    rfl
  · cases h

end Functions

theorem selected_eq_filter (document : Document) {chosen : List String} (hchosen : chosen ≠ [])
    (ignored : List String) :
    selected document chosen ignored =
      (selected document [] ignored).filter fun signature => signature.name ∈ chosen := by
  rw [selected, selected, List.filter_filter]
  congr 1
  funext signature
  simp [selects, hchosen]

/-! ### Steps of the two runs -/

namespace Run

section Steps

variable {α : Type} {step : Run α} {good : α → Prop}

/-- What a step ends with does not depend on the notices so far. -/
def Silent (step : Run α) : Prop := ∃ result : Except Abort α, step = ofExcept id result

theorem Delivers.always (h : Delivers step good) (silent : Silent step) :
    (∃ a, good a ∧ ∀ notices, step notices = .ok a notices) ∨
      ∃ abort : Abort, abort.isOfOutput ∧ ∀ notices, step notices = .error abort notices := by
  obtain ⟨result, rfl⟩ := silent
  cases result with
  | ok a =>
      obtain ⟨b, hb, hstep⟩ | ⟨abort, -, hstep⟩ := h []
      · cases hstep
        exact .inl ⟨a, hb, fun _ => rfl⟩
      · cases hstep
  | error abort =>
      obtain ⟨b, -, hstep⟩ | ⟨abort', habort, hstep⟩ := h []
      · cases hstep
      · cases hstep
        exact .inr ⟨abort, habort, fun _ => rfl⟩

end Steps

theorem indentation_silent (indent : Int) : Silent (indentation indent) := by
  rw [indentation]
  split_ifs
  · exact ⟨.ok none, rfl⟩
  · exact ⟨.error .indentTooWide, rfl⟩
  · exact ⟨.error .outOfMemory, rfl⟩
  · exact ⟨.ok (some indent.toNat), rfl⟩

theorem target_silent (workspace : Workspace) (output : String) :
    Silent (target workspace output) := by
  rw [target]
  split_ifs
  · exact ⟨.ok .standardOutput, rfl⟩
  · cases workspace.target output with
    | ok place => exact ⟨.ok (.file place), rfl⟩
    | error problem => exact ⟨.error (.path problem output), rfl⟩

variable {limits : Limits} {workspace : Workspace} {settings : Settings} {parameters : Parameters}

/-- How a run begins its result: with the recorded command line, if that is wanted and can be. -/
inductive Heading (limits : Limits) (workspace : Workspace) (settings : Settings)
    (parameters : Parameters) : Prop
  | made {header : List (String × Json)} (unnamed : header.lookup "functions" = none)
      (texts : ∀ field ∈ header, ∃ s, field.2 = .text s)
      (run : ∀ notices, comment limits workspace settings parameters notices =
        .ok header notices)
      (recorded : settings.comment.isTruthy →
        ∃ text, line limits.showing workspace parameters.values = .ok text)
  | refused {abort : Abort} (commented : settings.comment.isTruthy)
      (refused : line limits.showing workspace parameters.values = .error abort)
      (run : ∀ notices, comment limits workspace settings parameters notices =
        .error abort notices)

theorem heading (limits : Limits) (workspace : Workspace) (settings : Settings)
    (parameters : Parameters) : Heading limits workspace settings parameters := by
  by_cases hcomment : settings.comment.isTruthy
  · cases hline : line limits.showing workspace parameters.values with
    | ok text =>
        have hrun : ∀ notices, comment limits workspace settings parameters notices =
            .ok [("$comment", .text (Text.held s!"Generated by {text}"))] notices := by
          intro notices
          rw [comment, if_pos hcomment, hline]
          rfl
        exact .made rfl (List.forall_mem_singleton.mpr ⟨_, rfl⟩) hrun fun _ => ⟨text, hline⟩
    | error abort =>
        refine .refused hcomment hline fun notices => ?_
        rw [comment, if_pos hcomment, hline]
        rfl
  · have hrun : ∀ notices, comment limits workspace settings parameters notices =
        .ok [] notices := by
      intro notices
      rw [comment, if_neg hcomment]
      rfl
    exact .made rfl (List.forall_mem_nil _) hrun fun h => absurd h hcomment

/-- How two results are delivered by one command. -/
inductive Delivery (limits : Limits) (workspace : Workspace) (parameters : Parameters)
    (whole narrow : Json) (failures failures' : Nat) : Prop
  | both {target : Target} {indent : Option Nat}
      (full : ∀ notices, deliver limits workspace parameters whole failures notices =
        .ok (.finished target (whole.write indent ++ "\n") failures) notices)
      (part : ∀ notices, deliver limits workspace parameters narrow failures' notices =
        .ok (.finished target (narrow.write indent ++ "\n") failures') notices)
  | notWritten {excess : Json.Excess} (stopped : whole.stop? limits.writing = some excess)
      (full : ∀ notices, deliver limits workspace parameters whole failures notices =
        .error (.notWritten excess) notices)
  | neither {abort : Abort} (ofOutput : abort.isOfOutput)
      (full : ∀ notices, deliver limits workspace parameters whole failures notices =
        .error abort notices)
      (part : ∀ notices, deliver limits workspace parameters narrow failures' notices =
        .error abort notices)

theorem written_of_stop? {json : Json} (h : json.stop? limits.writing = none)
    (indent : Option Nat) (notices : List Notice) :
    written limits indent json notices = .ok (json.write indent ++ "\n") notices := by
  rw [written, h]
  rfl

theorem delivery (limits : Limits) (workspace : Workspace) (parameters : Parameters)
    {whole narrow : Json}
    (short : whole.stop? limits.writing = none → narrow.stop? limits.writing = none)
    (failures failures' : Nat) :
    Delivery limits workspace parameters whole narrow failures failures' := by
  obtain ⟨indent, -, hindent⟩ | ⟨abort, habort, hindent⟩ :=
    (indentation_delivers parameters.indent).always (indentation_silent _)
  case inr =>
    exact .neither habort (fun _ => bind_of_error (hindent _)) fun _ => bind_of_error (hindent _)
  cases hstop : whole.stop? limits.writing with
  | some excess =>
      refine .notWritten hstop fun notices => ?_
      have hwritten :
          written limits indent whole notices = .error (.notWritten excess) notices := by
        rw [written, hstop]
        rfl
      rw [deliver, bind_of_ok (hindent _), bind_of_error hwritten]
  | none =>
      have hwhole := written_of_stop? hstop indent
      have hnarrow := written_of_stop? (short hstop) indent
      obtain ⟨target, -, htarget⟩ | ⟨abort, habort, htarget⟩ :=
        (target_delivers workspace parameters.output).always (target_silent _ _)
      · have hdeliver : ∀ (json : Json) (failures : Nat),
            (∀ notices, written limits indent json notices =
              .ok (json.write indent ++ "\n") notices) →
              ∀ notices, deliver limits workspace parameters json failures notices =
                .ok (.finished target (json.write indent ++ "\n") failures) notices := by
          intro json failures hwritten notices
          rw [deliver, bind_of_ok (hindent _), bind_of_ok (hwritten _), bind_of_ok (htarget _)]
          rfl
        exact .both (hdeliver whole failures hwhole) (hdeliver narrow failures' hnarrow)
      · refine .neither habort (fun notices => ?_) fun notices => ?_
        · rw [deliver, bind_of_ok (hindent _), bind_of_ok (hwhole _), bind_of_error (htarget _)]
        · rw [deliver, bind_of_ok (hindent _), bind_of_ok (hnarrow _), bind_of_error (htarget _)]

end Run

section Accounts

variable {limits : Limits} {env : Environment} {policy : Policy} {document : Document}
  {chosen ignored : List String} {progress progress' : Run.Progress}
  {notices notices' : List Notice}

/-- A function does the same in both runs, so the account of the second one is part of that of the
first. -/
theorem Accounts.fields_asking (hchosen : chosen ≠ [])
    (full : Accounts limits env policy (selected document [] ignored) progress notices)
    (part : Accounts limits env policy (selected document chosen ignored) progress' notices') :
    progress'.fields = progress.fields.filter fun field => field.1 ∈ chosen := by
  rw [part.fields, full.fields, selected_eq_filter document hchosen,
    filterMap_filter_name (fun _ _ => written?_name) fun name => decide (name ∈ chosen)]
  exact fieldsOf_filter (fun name => decide (name ∈ chosen)) _

theorem Accounts.reported_asking (hchosen : chosen ≠ [])
    (full : Accounts limits env policy (selected document [] ignored) progress notices)
    (part : Accounts limits env policy (selected document chosen ignored) progress' notices') :
    notices'.filterMap Notice.failed? =
      (notices.filterMap Notice.failed?).filter fun failed => failed.1 ∈ chosen := by
  have hname : ∀ signature entry, reported? limits env policy signature = some entry →
      entry.1 = signature.name := fun _ _ => reported?_name
  rw [part.reported, full.reported, selected_eq_filter document hchosen]
  exact filterMap_filter_name hname (fun name => decide (name ∈ chosen)) _

theorem Accounts.not_breaks {declarations : List Declaration} {selected : List Signature}
    {signature : Signature} {abort : Abort}
    (h : Accounts limits (.ofTable (.ofList declarations)) policy selected progress notices)
    (hmem : signature ∈ selected) :
    ¬ Breaks limits (.ofTable (.ofList declarations)) policy signature abort := by
  intro hbreaks
  cases hbreaks with
  | notEncoded resolved refused =>
      obtain ⟨json, hencode⟩ := h.written signature hmem _ resolved
      cases hencode.symm.trans refused
  | notInteger failed =>
      obtain ⟨failure, hfailure⟩ := exists_failure_of_answer failed
      cases hfailure

end Accounts

/-- The second outcome is the first one narrowed to some names: of the fields of the result and of
the functions that are reported those of the names are left, in their order, and the exit code is
that of the reports that are left. -/
structure Narrows (chosen : List String) (full part : Outcome) : Prop where
  written : ∃ (target : Target) (indent : Option Nat) (whole narrow : Json)
    (fields : List (String × Json)) (failures failures' : Nat),
    full.ending = .finished target (whole.write indent ++ "\n") failures ∧
      part.ending = .finished target (narrow.write indent ++ "\n") failures' ∧
      whole.get? "functions" = some (.object fields) ∧
      narrow.get? "functions" = some (.object (fields.filter fun field => field.1 ∈ chosen))
  reported : part.notices.filterMap Notice.failed? =
    (full.notices.filterMap Notice.failed?).filter fun failed => failed.1 ∈ chosen
  exitCode : part.exitCode = if (part.notices.filterMap Notice.failed?).isEmpty then 0 else 1

/-- How a run for some functions compares with the run for all. Apart from output that cannot be had
for either, two things keep it from being narrowed. A name can be too long for a path, and is not
recorded then; or the run for all functions is broken off by a schema or a result that cannot be
written. -/
inductive Compares (limits : Limits) (workspace : Workspace) (document : Document)
    (settings : Settings) (ignored chosen : List String) (full part : Outcome) : Prop
  | narrowed (narrows : Narrows (chosen.map Text.held) full part)
  | nameTooLong {name : String} (commented : settings.comment.isTruthy) (mem : name ∈ chosen)
      (long : workspace.find name = .error .nameTooLong)
      (ending : part.ending = .broken (.path .nameTooLong (tidyPath name)))
  | tooManyDigits {signature : Signature} {schema : SignatureSchema} {n : Int}
      (ending : full.ending = .broken (.notEncoded (.tooManyDigits n)))
      (mem : signature ∈ selected document [] ignored)
      (resolved : answer limits (.ofTable (.ofList document.declarations)) settings.policy
        signature = .ok schema)
      (long : 10 ^ Number.digitLimit ≤ n.natAbs)
      (contains : ∃ inner ∈ schema.schemas, inner.Contains (.bigIntLiteral n))
  | tooDeep {signature : Signature} {schema : SignatureSchema}
      (ending : full.ending = .broken (.notEncoded .tooDeep))
      (mem : signature ∈ selected document [] ignored)
      (resolved : answer limits (.ofTable (.ofList document.declarations)) settings.policy
        signature = .ok schema)
      (deep : limits.encoding < schema.calls limits.listing)
  | notWritten {excess : Json.Excess} {whole : Json}
      (ending : full.ending = .broken (.notWritten excess))
      (functions : whole.get? "functions" = some (.object (fieldsOf
        ((selected document [] ignored).filterMap
          (written? limits (.ofTable (.ofList document.declarations)) settings.policy)))))
      (stopped : whole.stop? limits.writing = some excess)
  | undelivered {abort abort' : Abort} (full_ending : full.ending = .broken abort)
      (part_ending : part.ending = .broken abort') (ofOutput : abort.isOfOutput)

section Runs

open Run

variable {limits : Limits} {workspace : Workspace} {parameters : Parameters}
  {document : Document} {settings : Settings} {ignored chosen : List String}
  {progress : Progress} {notices : List Notice}

/-- What a run reads does not depend on the functions that it is asked for. -/
theorem Run.Reads.asking (reads : Reads limits workspace parameters document settings ignored)
    (names : List String) :
    Reads limits workspace (parameters.asking names) document settings ignored :=
  ⟨⟨reads.permitted, reads.readable, reads.configured⟩, reads.ignores⟩

/-- What is resolved in the run over all functions is resolved in the other run as well. -/
theorem resolveAll_asking (ignores : settings.ignored = some (.array (ignored.map .text)))
    (hchosen : chosen ≠ [])
    (full : Accounts limits (.ofTable (.ofList document.declarations)) settings.policy
      (selected document [] ignored) progress notices) (events : List Event) :
    ∃ progress' notices', resolveAll limits (.ofTable (.ofList document.declarations)) settings
        chosen document.functions (events.map .event) = .ok progress' notices' ∧
      Accounts limits (.ofTable (.ofList document.declarations)) settings.policy
        (selected document chosen ignored) progress' notices' := by
  have hsettled := resolveAll_settled ignores limits (.ofTable (.ofList document.declarations))
    chosen document.functions events
  cases hresolve : resolveAll limits (.ofTable (.ofList document.declarations)) settings chosen
      document.functions (events.map .event) with
  | ok progress' notices' =>
      rw [hresolve] at hsettled
      exact ⟨progress', notices', rfl, hsettled⟩
  | error abort notices' =>
      rw [hresolve] at hsettled
      obtain ⟨signature, hmem, hbreaks⟩ := hsettled
      have hall : signature ∈ selected document chosen ignored := hmem
      rw [selected_eq_filter document hchosen] at hall
      exact absurd hbreaks (full.not_breaks (List.mem_filter.mp hall).1)

/-- Where the run over all functions has resolved them, what is left of both runs is to deliver
their results. -/
theorem compares_of_accounts (reads : Reads limits workspace parameters document settings ignored)
    (hchosen : chosen ≠ []) {header : List (String × Json)}
    (unnamed : header.lookup "functions" = none)
    (recorded : settings.comment.isTruthy →
      ∃ text, line limits.showing workspace (parameters.asking []).values = .ok text)
    (full : Accounts limits (.ofTable (.ofList document.declarations)) settings.policy
      (selected document [] ignored) progress notices)
    (hfull : result limits workspace (parameters.asking []) [] =
      deliver limits workspace parameters
        (.object (header ++ [("functions", .object progress.fields)])) progress.failures notices) :
    Compares limits workspace document settings ignored chosen
      ((parameters.asking []).run limits workspace)
      ((parameters.asking chosen).run limits workspace) := by
  have hpart := (reads.asking chosen).toLoads.result_eq
  generalize document.declarations.flatMap DeclarationTable.additionEvents = events at hpart
  have hheld : chosen.map Text.held ≠ [] := mt List.map_eq_nil_iff.mp hchosen
  cases heading limits workspace settings (parameters.asking chosen) with
  | refused commented refused run =>
      rw [conclude, bind_of_error (run _)] at hpart
      obtain ⟨text, htext⟩ := recorded commented
      obtain ⟨name, hname, hlong, rfl⟩ := line_asking_failsOnly htext _ refused
      exact .nameTooLong commented hname hlong (by rw [run_of_error hpart])
  | @made header' unnamed' texts run _ =>
      obtain ⟨progress', notices', hresolve, part⟩ :=
        resolveAll_asking reads.ignores hheld full events
      have hresolve' : resolveAll limits (.ofTable (.ofList document.declarations)) settings
          (parameters.asking chosen).chosen document.functions
            (events.map .event) = .ok progress' notices' := hresolve
      rw [conclude, bind_of_ok (run _), bind_of_ok hresolve', full.fields_asking hheld part]
        at hpart
      cases delivery limits workspace parameters (Json.stop?_of_filter texts) progress.failures
          progress'.failures with
      | neither ofOutput failed failed' =>
          exact .undelivered (by rw [run_of_error (hfull.trans (failed _))])
            (by rw [run_of_error (hpart.trans (failed' _))]) ofOutput
      | notWritten stopped failed =>
          refine .notWritten (by rw [run_of_error (hfull.trans (failed _))]) ?_ stopped
          rw [get?_functions unnamed, full.fields]
      | both delivered delivered' =>
          have hrun := run_of_ok (hfull.trans (delivered _))
          have hrun' := run_of_ok (hpart.trans (delivered' _))
          refine .narrowed ⟨⟨_, _, _, _, progress.fields, _, _, by rw [hrun], by rw [hrun'],
            get?_functions unnamed _, get?_functions unnamed' _⟩, ?_, ?_⟩
          · rw [hrun, hrun', filterMap_failed?_shown, filterMap_failed?_shown]
            exact full.reported_asking hheld part
          · rw [hrun', filterMap_failed?_shown, part.reported]
            simp only [Outcome.exitCode, Ending.exitCode, part.failures, List.length_eq_zero_iff,
              List.isEmpty_iff]

/-- **Asking for functions by name narrows the result.** A run that is asked for some functions ends
as the run over all functions does when it is narrowed to their names, unless a name is too long to
be recorded, the run over all functions meets a schema or a result that it cannot write, or neither
run can deliver its output. -/
theorem selection_narrows (reads : Reads limits workspace parameters document settings ignored)
    (hchosen : chosen ≠ []) :
    Compares limits workspace document settings ignored chosen
      ((parameters.asking []).run limits workspace)
      ((parameters.asking chosen).run limits workspace) := by
  have hfull := (reads.asking []).toLoads.result_eq
  have hpart := (reads.asking chosen).toLoads.result_eq
  generalize document.declarations.flatMap DeclarationTable.additionEvents = events at hfull hpart
  cases heading limits workspace settings (parameters.asking []) with
  | refused commented refused run =>
      rw [conclude, bind_of_error (run _)] at hfull
      cases heading limits workspace settings (parameters.asking chosen) with
      | refused _ _ run' =>
          rw [conclude, bind_of_error (run' _)] at hpart
          exact .undelivered (by rw [run_of_error hfull]) (by rw [run_of_error hpart])
            (line_failsOnly_output _ refused)
      | made _ _ _ recorded =>
          -- If the names are recorded, then so is a command line without them.
          obtain ⟨text, htext⟩ := recorded commented
          obtain ⟨name, hname, -⟩ := line_asking_failsOnly htext _ refused
          cases hname
  | made unnamed _ run recorded =>
      rw [conclude, bind_of_ok (run _)] at hfull
      have hsettled := resolveAll_settled reads.ignores limits
        (.ofTable (.ofList document.declarations)) [] document.functions events
      have hasking : (parameters.asking []).chosen = [] := rfl
      rw [hasking] at hfull
      cases hresolve : resolveAll limits (.ofTable (.ofList document.declarations)) settings []
          document.functions (events.map .event) with
      | error abort notices =>
          rw [hresolve] at hsettled
          rw [bind_of_error hresolve] at hfull
          obtain ⟨signature, hmem, hbreaks⟩ := hsettled
          obtain ⟨schema, error, hanswer, rfl, hknown, hobstacle⟩ := hbreaks.exists_obstacle
          cases hobstacle with
          | unknownKind => exact absurd rfl (hknown _)
          | tooManyDigits hinner hpart long =>
              exact .tooManyDigits (by rw [run_of_error hfull]) hmem hanswer long
                ⟨_, hinner, hpart⟩
          | tooDeep deep => exact .tooDeep (by rw [run_of_error hfull]) hmem hanswer deep
      | ok progress notices =>
          rw [hresolve] at hsettled
          rw [bind_of_ok hresolve] at hfull
          exact compares_of_accounts reads hchosen unnamed recorded hsettled hfull

end Runs

/-! ### A name that is too long for a path -/

theorem selection_narrows_overloads :
    Run.Reads .usual overloads overloadsParameters overloadsDocument {} [] ∧ ["f"] ≠ [] ∧
      Compares .usual overloads overloadsDocument {} [] ["f"]
        ((overloadsParameters.asking []).run .usual overloads)
        ((overloadsParameters.asking ["f"]).run .usual overloads) :=
  ⟨overloads_reads, List.cons_ne_nil _ _, selection_narrows overloads_reads (List.cons_ne_nil _ _)⟩

theorem find_replicate (workspace : Workspace) {c : Char} {n : Nat} (hslash : c ≠ '/')
    (hnull : c ≠ '\x00') (h : nameLimit < n) :
    workspace.find (String.ofList (List.replicate n c)) = .error .nameTooLong := by
  have hchars : ∀ d ∈ (String.ofList (List.replicate n c)).toList, d = c := by
    intro d hd
    rw [String.toList_ofList] at hd
    exact (List.mem_replicate.mp hd).2
  have hlength := length_le_utf8ByteSize (List.replicate n c)
  rw [List.length_replicate] at hlength
  exact workspace.find_nameTooLong (fun hmem => hslash (hchars _ hmem).symm)
    (fun hmem => hnull (hchars _ hmem).symm) (Nat.lt_of_lt_of_le h hlength)

def longName : String := String.ofList (List.replicate 256 'x')

/-- The text of a document with one function, which has a long name. -/
def longNamedText : List Char :=
  "\x7b\"functions\": [\x7b\"name\": \"".toList ++ List.replicate 256 'x' ++
    "\", \"returnType\": \x7b\"kind\": \"StringKeyword\"\x7d\x7d]\x7d".toList

def longNamed : Workspace := .ofText "api" (String.ofList longNamedText)

theorem exists_longNamed_reads :
    ∃ document, Run.Reads .usual longNamed overloadsParameters document {} [] := by
  -- The reader goes through the characters; going through the bytes of the text takes too long.
  have hread : (match Json.readWhole Limits.usual.reading (Json.unifyLines longNamedText) with
      | .ok json => (Format.readDocument .usual (Text.held "api") json).isOk
      | .error _ => false) = true := by decide +kernel
  split at hread
  · next json hjson =>
      cases hdocument : Format.readDocument .usual (Text.held "api") json with
      | ok document =>
          refine ⟨document, Run.loads_ofText rfl ?_ hdocument rfl, rfl⟩
          rw [Json.readFile, Json.read, String.toList_ofList, String.toList_ofList, hjson]
          rfl
      | error error =>
          rw [hdocument] at hread
          cases hread
  · cases hread

theorem selection_not_always_narrows :
    ¬ ∀ (limits : Limits) (workspace : Workspace) (parameters : Parameters)
      (document : Document) (settings : Settings) (ignored chosen : List String),
      Run.Reads limits workspace parameters document settings ignored → chosen ≠ [] →
      Narrows (chosen.map Text.held) ((parameters.asking []).run limits workspace)
        ((parameters.asking chosen).run limits workspace) := by
  intro h
  obtain ⟨document, reads⟩ := exists_longNamed_reads
  obtain ⟨target, indent, whole, narrow, fields, failures, failures', -, hending, -⟩ :=
    (h .usual longNamed overloadsParameters document {} [] [longName] reads
      (List.cons_ne_nil _ _)).written
  have hresult := (Run.Reads.asking reads [longName]).toLoads.result_eq
  cases Run.heading .usual longNamed {} (overloadsParameters.asking [longName]) with
  | refused _ _ run =>
      rw [Run.conclude, Run.bind_of_error (run _)] at hresult
      rw [Run.run_of_error hresult] at hending
      cases hending
  | made _ _ _ recorded =>
      obtain ⟨text, htext⟩ := recorded rfl
      exact find_ne_nameTooLong_of_line lookup_functions_asking htext longName
        (List.mem_singleton_self _)
        (find_replicate longNamed (by decide) (by decide) (by decide))

end Command

end TypeSchema
