import TypeSchema.Proofs.Command.Account
import TypeSchema.Proofs.Command.Recording
import TypeSchema.Proofs.Failure.Support
import TypeSchema.Proofs.Json.Reading
import TypeSchema.Proofs.Schema.RoundTrip
import TypeSchema.Proofs.Schema.SourceOrder
import TypeSchema.Proofs.Text.CodePoint

/-!
# Every function is reported or written

A run over a document that can be read accounts for all functions that are selected. Those that
fail are reported, and of those that are resolved the result holds, under each name, the last one.
So a function is written as it was resolved unless a later function of its name is resolved to
something else, and of that nothing is told.

Functions do not break off a run, with one exception: their schemas are well formed, so nothing but
a bigint literal of too many digits keeps them from being written.
-/

namespace TypeSchema

/-! ### What a function can end with -/

/-- Whatever came before, an action yields something good or ends with a failure. -/
def Recorded.Ends {α : Type} (action : Recorded α) (good : α → Prop) : Prop :=
  ∀ earlier, match action earlier with
    | .ok a _ => good a
    | .error fault _ => ∃ failure, fault = .failure failure

namespace Recorded.Ends

variable {α β : Type} {action : Recorded α} {next : α → Recorded β} {good : α → Prop}
  {fine : β → Prop}

theorem pure {a : α} (h : good a) : Ends (pure a : Recorded α) good := fun _ => h

theorem throw (failure : Failure) : Ends (throw (.failure failure) : Recorded α) good :=
  fun _ => ⟨failure, rfl⟩

theorem bind (h : Ends action good) (hnext : ∀ a, good a → Ends (next a) fine) :
    Ends (action >>= next) fine := by
  intro earlier
  have haction := h earlier
  simp only [Bind.bind, EStateM.bind]
  cases hrun : action earlier with
  | ok a later =>
      rw [hrun] at haction
      exact hnext a haction later
  | error fault later =>
      rw [hrun] at haction
      exact haction

theorem mapM {ι : Type} {run : ι → Recorded α} (h : ∀ x, Ends (run x) good) (xs : List ι) :
    Ends (xs.mapM run) fun ys => ∀ y ∈ ys, good y := by
  induction xs with
  | nil => exact pure fun _ hmem => absurd hmem List.not_mem_nil
  | cons x xs ih =>
      rw [List.mapM_cons]
      refine (h x).bind fun y hy => ih.bind fun ys hys => pure ?_
      exact List.forall_mem_cons.mpr ⟨hy, hys⟩

end Recorded.Ends

section Ends

variable {declarations : List Declaration} {policy : Policy} {P : Schema → Prop}

/-- Every schema of a model that a type resolves to has the property. -/
def Environment.Yields (env : Environment) (policy : Policy) (P : Schema → Prop) : Prop :=
  ∀ budget type model, (resolveWithin budget env policy type).1 = .ok model →
    ∀ schema ∈ model.schemas, P schema

theorem Environment.yields_wellFormed (declarations : List Declaration) (policy : Policy) :
    (Environment.ofTable (.ofList declarations)).Yields policy Schema.WellFormed :=
  fun _ _ _ h => resolveWithin_formed (Environment.wellTyped_ofTable declarations) h

variable (yields : (Environment.ofTable (.ofList declarations)).Yields policy P)

include yields

theorem resolveType_ends (budget : Nat) (type : TypeExpr) :
    (resolveType budget (.ofTable (.ofList declarations)) policy type).Ends fun model =>
      ∀ schema ∈ model.schemas, P schema := by
  intro earlier
  rw [resolveType]
  have hmodel := yields budget type
  cases hrun : Resolve.typeWithin (.ofTable (.ofList declarations)) policy budget type {} with
  | ok root c =>
      simp only [resolveWithin, hrun] at hmodel ⊢
      exact hmodel _ rfl
  | error reason c =>
      simp only [resolveWithin, hrun]
      cases reason with
      | depthExceeded => exact ⟨_, rfl⟩
      | fault fault =>
          obtain ⟨node, -, hrefused⟩ := faulty_of_error hrun
          exact hrefused.exists_failure

theorem resolveParameter_ends (budget : Nat) (function : String) (parameter : Parameter) :
    (resolveParameter budget (.ofTable (.ofList declarations)) policy function parameter).Ends
      fun resolved => ∀ schema ∈ resolved.model.schemas, P schema := by
  rw [resolveParameter]
  cases parameter.type with
  | none => exact .throw _
  | some type => exact (resolveType_ends yields budget type).bind fun _ h => .pure h

/-- A function has schemas with the property or ends with a failure. -/
theorem resolveSignature_ends (budget : Nat) (signature : Signature) :
    (resolveSignature budget (.ofTable (.ofList declarations)) policy signature).Ends
      fun resolved => ∀ schema ∈ resolved.schemas, P schema := by
  rw [resolveSignature]
  have hstart : (recordEvent (.signatureStarted signature.name)).Ends fun _ => True :=
    fun _ => trivial
  refine hstart.bind fun _ _ => ?_
  cases signature.returnType with
  | none => exact .throw _
  | some returnType =>
      refine (Recorded.Ends.mapM (resolveParameter_ends yields budget signature.name)
        signature.parameters).bind fun parameters hparameters => ?_
      refine (resolveType_ends yields budget returnType).bind fun returns hreturns => ?_
      refine .pure fun schema hschema => ?_
      obtain hschema | hschema := List.mem_append.mp hschema
      · obtain ⟨parameter, hmem, hschema⟩ := List.mem_flatMap.mp hschema
        exact hparameters parameter hmem schema hschema
      · exact hreturns schema hschema

end Ends

namespace Command

section Breaks

variable {limits : Limits} {declarations : List Declaration} {policy : Policy}
  {signature : Signature} {abort : Abort}

/-- What a function ends with when nothing is recorded before it. -/
theorem answer_ends {P : Schema → Prop} (limits : Limits)
    (yields : (Environment.ofTable (.ofList declarations)).Yields policy P)
    (signature : Signature) :
    match answer limits (.ofTable (.ofList declarations)) policy signature with
    | .ok schema => ∀ inner ∈ schema.schemas, P inner
    | .error fault => ∃ failure, fault = .failure failure := by
  have hends := resolveSignature_ends yields limits.resolving signature []
  rw [answer]
  cases hrun : resolveSignature limits.resolving (.ofTable (.ofList declarations)) policy signature
      [] with
  | ok schema events =>
      rw [hrun] at hends
      exact hends
  | error fault events =>
      rw [hrun] at hends
      exact hends

theorem forall_of_answer {P : Schema → Prop}
    (yields : (Environment.ofTable (.ofList declarations)).Yields policy P)
    {schema : SignatureSchema}
    (h : answer limits (.ofTable (.ofList declarations)) policy signature = .ok schema) :
    ∀ inner ∈ schema.schemas, P inner := by
  have hends := answer_ends limits yields signature
  rw [h] at hends
  exact hends

theorem exists_failure_of_answer {fault : Fault}
    (h : answer limits (.ofTable (.ofList declarations)) policy signature = .error fault) :
    ∃ failure, fault = .failure failure := by
  have hends := answer_ends limits (Environment.yields_wellFormed declarations policy) signature
  rw [h] at hends
  exact hends

/-- Too many digits and too little room are all that break off a run over a function. -/
theorem Breaks.exists_obstacle
    (h : Breaks limits (.ofTable (.ofList declarations)) policy signature abort) :
    ∃ schema error, answer limits (.ofTable (.ofList declarations)) policy signature = .ok schema ∧
      abort = .notEncoded error ∧ (∀ word, error ≠ .unknownKind word) ∧
      IsObstacle schema.schemas (schema.calls limits.listing) limits.encoding error := by
  cases h with
  | @notEncoded schema error resolved refused =>
      have hobstacle := (schema.encode_stops limits.listing limits.encoding).isObstacle refused
      refine ⟨schema, error, resolved, rfl, fun word hword => ?_, hobstacle⟩
      cases hobstacle with
      | unknownKind hschema hpart =>
          have hformed := forall_of_answer (Environment.yields_wellFormed declarations policy)
            resolved _ hschema
          exact hformed.ne_foreign _ hpart
      | _ => cases hword
  | notInteger failed =>
      obtain ⟨failure, hfailure⟩ := exists_failure_of_answer failed
      cases hfailure

end Breaks

/-! ### The result -/

theorem Accounts.kept_iff {limits : Limits} {env : Environment} {policy : Policy}
    {selected : List Signature} {progress : Run.Progress} {notices : List Notice}
    {signature : Signature} {schema : SignatureSchema} {json : Json}
    (h : Accounts limits env policy selected progress notices)
    (hencode : schema.encode limits.listing limits.encoding = .ok json) :
    progress.fields.lookup signature.name = some json ↔
      lastResolved? limits env policy selected signature.name = some schema := by
  have hwritten : ∀ other ∈ selected.reverse, ∀ schema,
      answer limits env policy other = .ok schema →
        ∃ json, schema.encode limits.listing limits.encoding = .ok json :=
    fun other hother => h.written other (List.mem_reverse.mp hother)
  rw [h.fields, lookup_fieldsOf, ← List.filterMap_reverse,
    lookup_written limits env policy _ hwritten, ← lastResolved?]
  constructor
  · intro hlookup
    obtain ⟨last, hlast, hjson⟩ := Option.bind_eq_some_iff.mp hlookup
    have hencoded : last.encode limits.listing limits.encoding = .ok json := by
      cases hencode' : last.encode limits.listing limits.encoding with
      | ok json' =>
          rw [hencode'] at hjson
          rw [Option.some.inj hjson]
      | error error =>
          rw [hencode'] at hjson
          cases hjson
    -- Both schemas are read back from the same value.
    rw [hlast, ← SignatureSchema.decode?_of_encode hencoded,
      SignatureSchema.decode?_of_encode hencode]
  · intro hlast
    rw [hlast, Option.bind_some, hencode]
    rfl

/-! ### A whole run -/

/-- The functions of a document that are asked for and not ignored. -/
def selected (document : Document) (chosen ignored : List String) : List Signature :=
  document.functions.filter fun signature => selects chosen ignored signature.name

/-- What a run loads: its document and its settings. -/
structure Run.Loads (limits : Limits) (workspace : Workspace) (parameters : Parameters)
    (document : Document) (settings : Settings) : Prop where
  permitted : workspace.mayRead parameters.path
  readable : ∃ bytes text json, workspace.contents? parameters.path = some bytes ∧
    Text.decode bytes = .ok text ∧ Json.readFile limits.reading text = .ok json ∧
    Format.readDocument limits (Text.held parameters.path.name) json = .ok document
  configured : Run.settings limits workspace parameters [] = .ok settings []

/-- What a run reads: a document and settings, which ignore a list of names. -/
structure Run.Reads (limits : Limits) (workspace : Workspace) (parameters : Parameters)
    (document : Document) (settings : Settings) (ignored : List String) : Prop
    extends Run.Loads limits workspace parameters document settings where
  ignores : settings.ignored = some (.array (ignored.map .text))

/-- Whether it is the output that breaks off a run: the command line is not recorded, the result is
not laid out as a text, or a path leads to no file that can be written. -/
def Abort.isOfOutput : Abort → Bool
  | .path _ _ | .notRecorded _ | .notWritten _ | .indentTooWide | .outOfMemory => true
  | _ => false

/-- The outcome shows a text among its errors. -/
def Outcome.Reports (outcome : Outcome) (text : String) : Prop :=
  ∃ before after, outcome.standardError = before ++ text ++ after

/-- A function is reported with its failure, or it is resolved, and then the result has its schema
under its name exactly if this is the schema of the last function of the name. -/
inductive Accounted (limits : Limits) (env : Environment) (policy : Policy)
    (selected : List Signature) (outcome : Outcome) (fields : List (String × Json))
    (signature : Signature) : Prop
  | reported {failure : Failure}
      (failed : answer limits env policy signature = .error (.failure failure))
      (reports : outcome.Reports (Notice.functionFailed signature.name failure).render)
  | resolved {schema : SignatureSchema} {json : Json}
      (resolved : answer limits env policy signature = .ok schema)
      (written : schema.encode limits.listing limits.encoding = .ok json)
      (kept : fields.lookup signature.name = some json ↔
        lastResolved? limits env policy selected signature.name = some schema)

/-- How a run ends that has read its document: it accounts for every selected function in what it
writes, or it is broken off. That takes a literal of too many digits or a signature whose writing
nests too many calls, or the output is at fault. -/
inductive Ends (limits : Limits) (env : Environment) (policy : Policy)
    (selected : List Signature) (outcome : Outcome) : Prop
  | finished {target : Target} {result : Json} {fields : List (String × Json)}
      {indent : Option Nat}
      (ending : outcome.ending = .finished target (result.write indent ++ "\n")
        (selected.filterMap (reported? limits env policy)).length)
      (functions : result.get? "functions" = some (.object fields))
      (reported : outcome.notices.filterMap Notice.failed? =
        selected.filterMap (reported? limits env policy))
      (accounted : ∀ signature ∈ selected,
        Accounted limits env policy selected outcome fields signature)
  | tooManyDigits {signature : Signature} {schema : SignatureSchema} {n : Int}
      (ending : outcome.ending = .broken (.notEncoded (.tooManyDigits n)))
      (mem : signature ∈ selected) (resolved : answer limits env policy signature = .ok schema)
      (long : 10 ^ Number.digitLimit ≤ n.natAbs)
      (contains : ∃ inner ∈ schema.schemas, inner.Contains (.bigIntLiteral n))
  | tooDeep {signature : Signature} {schema : SignatureSchema}
      (ending : outcome.ending = .broken (.notEncoded .tooDeep))
      (mem : signature ∈ selected) (resolved : answer limits env policy signature = .ok schema)
      (deep : limits.encoding < schema.calls limits.listing)
  | undelivered {abort : Abort} (ending : outcome.ending = .broken abort)
      (ofOutput : abort.isOfOutput)

namespace Run

/-- A step that leaves no notices; it yields something good unless the output is at fault. -/
def Delivers {α : Type} (step : Run α) (good : α → Prop) : Prop :=
  ∀ notices, (∃ a, good a ∧ step notices = .ok a notices) ∨
    ∃ abort : Abort, abort.isOfOutput ∧ step notices = .error abort notices

theorem Delivers.bind {α β : Type} {step : Run α} {next : α → Run β} {good : α → Prop}
    {fine : β → Prop} (h : Delivers step good) (hnext : ∀ a, good a → Delivers (next a) fine) :
    Delivers (step >>= next) fine := by
  intro notices
  obtain ⟨a, ha, hstep⟩ | ⟨abort, habort, hstep⟩ := h notices
  · rw [bind_of_ok hstep]
    exact hnext a ha notices
  · exact .inr ⟨abort, habort, bind_of_error hstep⟩

theorem Delivers.mono {α : Type} {step : Run α} {good fine : α → Prop} (h : Delivers step good)
    (himp : ∀ a, good a → fine a) : Delivers step fine := by
  intro notices
  obtain ⟨a, ha, hstep⟩ | habort := h notices
  · exact .inl ⟨a, himp a ha, hstep⟩
  · exact .inr habort

theorem valueWord_failsOnly_output (showing : Nat) (workspace : Workspace) (value : Json) :
    FailsOnly (fun abort => abort.isOfOutput) (valueWord showing workspace value) := by
  cases value with
  | text s => exact (valueWord_failsOnly s).mono fun _ habort => habort.2 ▸ rfl
  | _ =>
      rw [valueWord]
      · cases Json.display showing _ with
        | ok word => exact failsOnly_ok word
        | error excess => exact failsOnly_error rfl
      · intro s hs
        cases hs

theorem line_failsOnly_output {showing : Nat} {workspace : Workspace} {values : Values} :
    FailsOnly (fun abort => abort.isOfOutput) (line showing workspace values) :=
  line_failsOnly_of_values (valueWord_failsOnly_output showing workspace)

theorem comment_delivers (limits : Limits) (workspace : Workspace) (settings : Settings)
    (parameters : Parameters) :
    (comment limits workspace settings parameters).Delivers fun header =>
      header.lookup "functions" = none := by
  intro notices
  rw [comment]
  by_cases hcomment : settings.comment.isTruthy
  · rw [if_pos hcomment]
    cases hline : line limits.showing workspace parameters.values with
    | ok text => exact .inl ⟨_, rfl, rfl⟩
    | error abort => exact .inr ⟨abort, line_failsOnly_output abort hline, rfl⟩
  · rw [if_neg hcomment]
    exact .inl ⟨_, rfl, rfl⟩

theorem indentation_delivers (indent : Int) :
    (indentation indent).Delivers fun _ => True := by
  intro notices
  rw [indentation]
  split_ifs
  · exact .inl ⟨_, trivial, rfl⟩
  · exact .inr ⟨_, rfl, rfl⟩
  · exact .inr ⟨_, rfl, rfl⟩
  · exact .inl ⟨_, trivial, rfl⟩

theorem written_delivers (limits : Limits) (indent : Option Nat) (json : Json) :
    (written limits indent json).Delivers fun text => text = json.write indent ++ "\n" := by
  intro notices
  rw [written]
  cases json.stop? limits.writing with
  | some excess => exact .inr ⟨_, rfl, rfl⟩
  | none => exact .inl ⟨_, rfl, rfl⟩

/-- What is written under the name of an output goes to a target. -/
inductive Leads (workspace : Workspace) (output : String) : Target → Prop
  | standardOutput (dash : output = "-") : Leads workspace output .standardOutput
  | file {place : Place} (named : output ≠ "-") (opens : workspace.target output = .ok place) :
      Leads workspace output (.file place)

theorem target_delivers (workspace : Workspace) (output : String) :
    (target workspace output).Delivers (Leads workspace output) := by
  intro notices
  rw [target]
  split_ifs with hdash
  · exact .inl ⟨_, .standardOutput hdash, rfl⟩
  · cases htarget : workspace.target output with
    | ok place => exact .inl ⟨_, .file hdash htarget, rfl⟩
    | error problem => exact .inr ⟨_, rfl, rfl⟩

def deliver (limits : Limits) (workspace : Workspace) (parameters : Parameters) (result : Json)
    (failures : Nat) : Run Ending := do
  let text ← written limits (← indentation parameters.indent) result
  return .finished (← target workspace parameters.output) text failures

theorem deliver_leads (limits : Limits) (workspace : Workspace) (parameters : Parameters)
    (result : Json) (failures : Nat) :
    (deliver limits workspace parameters result failures).Delivers fun ending =>
      ∃ target indent, ending = .finished target (result.write indent ++ "\n") failures ∧
        Leads workspace parameters.output target := by
  refine (indentation_delivers parameters.indent).bind fun indent _ => ?_
  refine (written_delivers limits indent result).bind fun text htext => ?_
  refine (target_delivers workspace parameters.output).bind fun target htarget => ?_
  subst htext
  exact fun _ => .inl ⟨_, ⟨target, indent, rfl, htarget⟩, rfl⟩

theorem deliver_delivers (limits : Limits) (workspace : Workspace) (parameters : Parameters)
    (result : Json) (failures : Nat) :
    (deliver limits workspace parameters result failures).Delivers fun ending =>
      ∃ target indent, ending = .finished target (result.write indent ++ "\n") failures :=
  (deliver_leads limits workspace parameters result failures).mono
    fun _ ⟨target, indent, hending, _⟩ => ⟨target, indent, hending⟩

/-- What is left of a run once its input is read. -/
def conclude (limits : Limits) (workspace : Workspace) (parameters : Parameters)
    (document : Document) (settings : Settings) : Run Ending := do
  let env := Environment.ofTable (.ofList document.declarations)
  let header ← comment limits workspace settings parameters
  let progress ← resolveAll limits env settings parameters.chosen document.functions
  deliver limits workspace parameters (.object (header ++ [("functions", .object progress.fields)]))
    progress.failures

variable {limits : Limits} {workspace : Workspace} {parameters : Parameters}
  {document : Document} {settings : Settings}

theorem contents_of_decode {place : Place} {bytes : ByteArray} {text : String}
    (permitted : workspace.mayRead place) (hbytes : workspace.contents? place = some bytes)
    (htext : Text.decode bytes = .ok text) (notices : List Notice) :
    contents workspace place notices = .ok text notices := by
  rw [contents, if_neg (by simpa using permitted), hbytes]
  dsimp only
  rw [htext]
  rfl

/-- What a run does once its input is read depends on what it has read alone. -/
theorem Loads.result_eq (loads : Loads limits workspace parameters document settings) :
    result limits workspace parameters [] =
      conclude limits workspace parameters document settings
        ((document.declarations.flatMap DeclarationTable.additionEvents).map .event) := by
  obtain ⟨bytes, text, json, hbytes, htext, hjson, hdocument⟩ := loads.readable
  rw [result, bind_of_ok (contents_of_decode loads.permitted hbytes htext []), hjson,
    bind_of_ok (ofExcept_ok _ _), bind_of_ok loads.configured, hdocument,
    bind_of_ok (ofExcept_ok _ _)]
  rfl

theorem run_of_ok {ending : Ending} {notices : List Notice}
    (h : result limits workspace parameters [] = .ok ending notices) :
    parameters.run limits workspace =
      ⟨notices.filter (·.isShown parameters.verbose), ending⟩ := by
  rw [Parameters.run, h]

theorem run_of_error {abort : Abort} {notices : List Notice}
    (h : result limits workspace parameters [] = .error abort notices) :
    parameters.run limits workspace =
      ⟨notices.filter (·.isShown parameters.verbose), .broken abort⟩ := by
  rw [Parameters.run, h]

end Run

/-- Failures are shown whatever else is. -/
theorem filterMap_failed?_shown (verbose : Bool) (notices : List Notice) :
    (notices.filter (·.isShown verbose)).filterMap Notice.failed? =
      notices.filterMap Notice.failed? := by
  rw [List.filterMap_filter]
  congr 1
  funext notice
  cases notice with
  | event event => simp [Notice.failed?]
  | functionFailed name failure => rfl

theorem reports_of_mem {outcome : Outcome} {notice : Notice} (h : notice ∈ outcome.notices) :
    outcome.Reports notice.render := by
  obtain ⟨before, after, hnotices⟩ := List.append_of_mem h
  refine ⟨String.join (before.map Notice.render),
    String.join (after.map Notice.render) ++ outcome.ending.render, ?_⟩
  rw [Outcome.standardError, hnotices, List.map_append, List.map_cons, String.join_append,
    String.join_cons]
  simp only [String.append_assoc]

theorem mem_of_failed? {notices : List Notice} {name : String} {failure : Failure}
    (h : (name, failure) ∈ notices.filterMap Notice.failed?) :
    .functionFailed name failure ∈ notices := by
  obtain ⟨notice, hmem, hfailed⟩ := List.mem_filterMap.mp h
  cases notice with
  | event event => cases hfailed
  | functionFailed name' failure' =>
      cases hfailed
      exact hmem

theorem accounted_of_accounts {limits : Limits} {env : Environment} {policy : Policy}
    {selected : List Signature} {progress : Run.Progress} {outcome : Outcome}
    (h : Accounts limits env policy selected progress outcome.notices)
    (failures : ∀ signature fault, answer limits env policy signature = .error fault →
      ∃ failure, fault = .failure failure)
    (signature : Signature) (hsignature : signature ∈ selected) :
    Accounted limits env policy selected outcome progress.fields signature := by
  cases hanswer : answer limits env policy signature with
  | ok schema =>
      obtain ⟨json, hencode⟩ := h.written signature hsignature schema hanswer
      exact .resolved hanswer hencode (h.kept_iff hencode)
  | error fault =>
      obtain ⟨failure, rfl⟩ := failures signature fault hanswer
      have hreported : reported? limits env policy signature = some (signature.name, failure) := by
        rw [reported?, hanswer]
      have hmem : (signature.name, failure) ∈ outcome.notices.filterMap Notice.failed? := by
        rw [h.reported]
        exact List.mem_filterMap.mpr ⟨signature, hsignature, hreported⟩
      exact .reported hanswer (reports_of_mem (mem_of_failed? hmem))

theorem Accounts.shown {limits : Limits} {env : Environment} {policy : Policy}
    {selected : List Signature} {progress : Run.Progress} {notices : List Notice}
    (h : Accounts limits env policy selected progress notices) (verbose : Bool) :
    Accounts limits env policy selected progress (notices.filter (·.isShown verbose)) where
  fields := h.fields
  reported := by rw [filterMap_failed?_shown, h.reported]
  failures := h.failures
  written := h.written

theorem get?_functions {header : List (String × Json)} (h : header.lookup "functions" = none)
    (fields : Json) :
    (Json.object (header ++ [("functions", fields)])).get? "functions" = some fields := by
  rw [Json.get?, List.lookup_append, h]
  rfl

open Run in
/-- **Every function is accounted for.** A run that has read its document reports each selected
function that fails, and of those that are resolved it writes the last one of each name, unless it
is broken off by a literal of too many digits, by a signature that is too deep to be written or by
the output. -/
theorem functions_accounted {limits : Limits} {workspace : Workspace} {parameters : Parameters}
    {document : Document} {settings : Settings} {ignored : List String}
    (reads : Reads limits workspace parameters document settings ignored) :
    Ends limits (.ofTable (.ofList document.declarations)) settings.policy
      (selected document parameters.chosen ignored)
      (parameters.run limits workspace) := by
  have hresult := reads.toLoads.result_eq
  generalize document.declarations.flatMap DeclarationTable.additionEvents = events at hresult
  -- The header is made before any function is resolved, so its paths can break off the run first.
  obtain ⟨header, hheader, hcomment⟩ | ⟨abort, habort, hcomment⟩ :=
    comment_delivers limits workspace settings parameters (events.map .event)
  case inr =>
    rw [conclude, bind_of_error hcomment] at hresult
    exact .undelivered (by rw [run_of_error hresult]) habort
  have hsettled := resolveAll_settled reads.ignores limits
    (.ofTable (.ofList document.declarations)) parameters.chosen
    document.functions events
  rw [conclude, bind_of_ok hcomment] at hresult
  cases hresolve : resolveAll limits (.ofTable (.ofList document.declarations)) settings
      parameters.chosen document.functions (events.map .event) with
  | error abort notices =>
      rw [hresolve] at hsettled
      rw [bind_of_error hresolve] at hresult
      obtain ⟨signature, hmem, hbreaks⟩ := hsettled
      obtain ⟨schema, error, hanswer, rfl, hknown, hobstacle⟩ := hbreaks.exists_obstacle
      cases hobstacle with
      | unknownKind => exact absurd rfl (hknown _)
      | tooManyDigits hinner hpart long =>
          exact .tooManyDigits (by rw [run_of_error hresult]) hmem hanswer long ⟨_, hinner, hpart⟩
      | tooDeep deep => exact .tooDeep (by rw [run_of_error hresult]) hmem hanswer deep
  | ok progress notices =>
      rw [hresolve] at hsettled
      rw [bind_of_ok hresolve] at hresult
      obtain ⟨ending, ⟨target, indent, rfl⟩, hdeliver⟩ | ⟨abort, habort, hdeliver⟩ :=
        deliver_delivers limits workspace parameters
          (.object (header ++ [("functions", .object progress.fields)])) progress.failures notices
      case inr =>
        rw [hdeliver] at hresult
        exact .undelivered (by rw [run_of_error hresult]) habort
      rw [hdeliver] at hresult
      have haccounts : Accounts limits (.ofTable (.ofList document.declarations)) settings.policy
          (selected document parameters.chosen ignored) progress
          (parameters.run limits workspace).notices := by
        rw [run_of_ok hresult]
        exact Accounts.shown hsettled parameters.verbose
      have hending : (parameters.run limits workspace).ending = .finished target
          ((Json.object (header ++ [("functions", .object progress.fields)])).write indent ++ "\n")
          ((selected document parameters.chosen ignored).filterMap (reported? limits
            (.ofTable (.ofList document.declarations)) settings.policy)).length := by
        rw [run_of_ok hresult, ← haccounts.failures]
      exact .finished hending (get?_functions hheader _) haccounts.reported
        (accounted_of_accounts haccounts fun _ _ => exists_failure_of_answer)

/-- A function without parameters, by its name and the kind of its result. -/
def bareFunction (name kind : String) : Json :=
  .object [("name", .text name), ("returnType", .object [("kind", .text kind)])]

/-- A file in the root directory. -/
def Workspace.ofText (name text : String) : Workspace where
  directory := []
  files := [([name], text.toUTF8)]

theorem Run.loads_ofText {limits : Limits} {parameters : Parameters} {document : Document}
    {settings : Settings} {name text : String} {json : Json} (path : parameters.path = [name])
    (hjson : Json.readFile limits.reading text = .ok json)
    (hdocument : Format.readDocument limits (Text.held name) json = .ok document)
    (configured : Run.settings limits (.ofText name text) parameters [] = .ok settings []) :
    Run.Loads limits (.ofText name text) parameters document settings where
  permitted := rfl
  readable := by
    refine ⟨text.toUTF8, text, json, ?_, Text.decode_toUTF8 text, hjson, ?_⟩
    · rw [path]
      exact List.lookup_cons_self
    · rw [path]
      exact hdocument
  configured := configured

def overloadsJson : Json :=
  .object [("functions", .array
    [bareFunction "f" "StringKeyword", bareFunction "f" "NumberKeyword"])]

/-- A file with two functions of one name. -/
def overloads : Workspace := .ofText "api" (overloadsJson.write none)

/-- A function without parameters, as it is read from a document. -/
def bareSignature (name : String) (keyword : Keyword) (position : Nat) : Signature :=
  let pointer := (Pointer.root.field "functions").index position
  ⟨some ⟨"api", 0, 0, pointer⟩, name, [],
    some (.keyword (some ⟨"api", 0, 0, pointer.field "returnType"⟩) keyword)⟩

def overloadsDocument : Document :=
  ⟨[], [bareSignature "f" .string 0, bareSignature "f" .number 1], "api"⟩

def overloadsParameters : Parameters := ⟨{ indent := 0 }, ["api"], "-"⟩

theorem overloads_readFile :
    Json.readFile Limits.usual.reading (overloadsJson.write none) = .ok overloadsJson := by
  have hread : Json.readFile Limits.usual.reading (overloadsJson.write none ++ "") =
      .ok overloadsJson := Json.readFile_write (by decide) (by decide) none Json.areBlanks_nil
  rwa [String.append_empty] at hread

theorem overloads_reads :
    Run.Reads .usual overloads overloadsParameters overloadsDocument {} [] where
  toLoads := Run.loads_ofText rfl overloads_readFile rfl rfl
  ignores := rfl

theorem functions_accounted_overloads :
    Run.Reads .usual overloads overloadsParameters overloadsDocument {} [] ∧
      Ends .usual (.ofTable (.ofList [])) ⟨.expand, false⟩ overloadsDocument.functions
        (overloadsParameters.run .usual overloads) :=
  ⟨overloads_reads, functions_accounted overloads_reads⟩

/-! ### A function that is lost -/

/-- What a reader of the result finds under the name of a function. -/
def Outcome.function? (limits : Limits) (outcome : Outcome) (name : String) : Option Json :=
  match outcome.ending with
  | .finished _ text _ =>
    ((Json.readFile limits.reading text).toOption.bind (·.get? "functions")).bind (·.get? name)
  | _ => none

/-- The kind of the result of a function. -/
def returnedKind? (signature : Json) : Option Json :=
  signature.follow? [.field "returns", .field "root", .field "type"]

theorem Outcome.function?_of_finished {limits : Limits} {outcome : Outcome} {target : Target}
    {result : Json} {indent : Option Nat} {failures : Nat}
    (hending : outcome.ending = .finished target (result.write indent ++ "\n") failures)
    (hresult : result.isRestorable) (hdepth : result.depth ≤ limits.reading) (name : String) :
    outcome.function? limits name = (result.get? "functions").bind (·.get? name) := by
  rw [function?, hending]
  dsimp only
  have hblanks : Json.AreBlanks "\n".toList := List.forall_mem_singleton.mpr rfl
  rw [Json.readFile_write hresult hdepth indent hblanks]
  rfl

/-- What is written for two functions of one name. -/
def overloadsResult : Json :=
  .object
    [("$comment", .text "Generated by signature_to_schema api"),
     ("functions", .object [("f", .object
      [("name", .text "f"), ("parameters", .array []),
       ("returns", .object
        [("root", .object [("type", .text "number")]), ("deps", .object [])])])])]

theorem overloads_run :
    (overloadsParameters.run .usual overloads).standardError = "" ∧
      ∃ target indent, (overloadsParameters.run .usual overloads).ending =
        .finished target (overloadsResult.write indent ++ "\n") 0 := by
  rw [Parameters.run, overloads_reads.toLoads.result_eq]
  exact ⟨rfl, .standardOutput, none, rfl⟩

theorem functions_not_always_kept :
    ¬ ∀ (limits : Limits) (workspace : Workspace) (parameters : Parameters)
      (document : Document) (settings : Settings) (ignored : List String),
      Run.Reads limits workspace parameters document settings ignored →
      ∀ signature ∈ selected document parameters.chosen ignored,
        (∃ failure : Failure, (parameters.run limits workspace).Reports
          (Notice.functionFailed signature.name failure).render) ∨
        ∃ schema json, answer limits (.ofTable (.ofList document.declarations)) settings.policy
            signature = .ok schema ∧ schema.encode limits.listing limits.encoding = .ok json ∧
          (parameters.run limits workspace).function? limits signature.name = some json := by
  intro h
  have hselected : bareSignature "f" .string 0 ∈ selected overloadsDocument [] [] :=
    List.mem_cons_self
  obtain ⟨failure, before, after, hreports⟩ | ⟨schema, json, hanswer, hencode, hfound⟩ :=
    h .usual overloads overloadsParameters overloadsDocument {} [] overloads_reads _ hselected
  · rw [overloads_run.1] at hreports
    have hempty := congrArg String.toList hreports
    simp only [Notice.render, String.toList_append, String.toList_empty, List.nil_eq,
      List.append_eq_nil_iff, String.toList_eq_nil_iff] at hempty
    exact Text.released_ne_empty (by simp [toString]) hempty.1.2
  · obtain ⟨target, indent, hending⟩ := overloads_run.2
    have hname : (overloadsParameters.run .usual overloads).function? .usual "f" = _ :=
      Outcome.function?_of_finished hending (by decide) (by decide) "f"
    obtain rfl := Except.ok.inj hanswer
    obtain rfl := Except.ok.inj hencode
    have hkinds := congrArg (Option.bind · returnedKind?) (hname.symm.trans hfound)
    have hstring : some (Json.text "number") = some (Json.text "string") := hkinds
    simp at hstring

end Command

end TypeSchema
