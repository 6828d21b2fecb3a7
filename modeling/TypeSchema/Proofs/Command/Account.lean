import TypeSchema.Command.Run
import TypeSchema.Proofs.Basic

/-!
# What becomes of the functions of a document

A run goes through the functions of its document one by one. A function that is not selected leaves
nothing behind but a notice, one that fails is reported, and one that is resolved is written into a
field of the result. The account of a run is kept in terms of the functions that were selected so
far: which of them were reported, and which fields they left behind. As a field is set in place when
its name occurs again, a look-up in the result finds the last function of the name.
-/

namespace TypeSchema

namespace Json

variable {key name : String} {value : Json} {fields : List (String × Json)}

theorem lookup_replaced (h : name ≠ key) :
    (fields.map fun field => if field.1 = key then (key, value) else field).lookup name =
      fields.lookup name := by
  induction fields with
  | nil => rfl
  | cons field rest ih =>
      rw [List.map_cons, lookup_cons, lookup_cons, ih]
      by_cases hfield : field.1 = key
      · rw [if_pos hfield, if_neg h, if_neg (hfield ▸ h)]
      · rw [if_neg hfield]

theorem insertField_cons_of_ne (field : String × Json) (h : field.1 ≠ key) :
    insertField (field :: fields) key value = field :: insertField fields key value := by
  unfold insertField
  by_cases hany : fields.any (·.1 = key)
  · simp [h, hany]
  · simp [h, hany]

theorem lookup_insertField :
    (insertField fields key value).lookup name =
      if name = key then some value else fields.lookup name := by
  induction fields with
  | nil => rw [insertField, if_neg (by simp), List.nil_append, lookup_cons]
  | cons field rest ih =>
      -- A field of the name is replaced in place, so those behind it matter only if it is not.
      by_cases hfield : field.1 = key
      · rw [insertField, if_pos (by simp [hfield]), List.map_cons, if_pos hfield, lookup_cons]
        by_cases hname : name = key
        · rw [if_pos hname, if_pos hname]
        · rw [if_neg hname, if_neg hname, lookup_replaced hname, lookup_cons, hfield, if_neg hname]
      · rw [insertField_cons_of_ne field hfield, lookup_cons, lookup_cons, ih]
        by_cases hname : name = key
        · have hother : name ≠ field.1 := fun heq => hfield (heq.symm.trans hname)
          rw [if_pos hname, if_pos hname, if_neg hother]
        · rw [if_neg hname, if_neg hname]

end Json

namespace Command

/-! ### Functions by themselves -/

/-- The schema of a function or the fault that it ends with, whatever is recorded. -/
def answer (limits : Limits) (env : Environment) (policy : Policy) (signature : Signature) :
    Except Fault SignatureSchema :=
  match resolveSignature limits.resolving env policy signature [] with
  | .ok schema _ => .ok schema
  | .error fault _ => .error fault

/-- A function that is resolved, by its name. -/
def resolved? (limits : Limits) (env : Environment) (policy : Policy) (signature : Signature) :
    Option (String × SignatureSchema) :=
  (answer limits env policy signature).toOption.map (signature.name, ·)

/-- A function that is reported, by its name. -/
def reported? (limits : Limits) (env : Environment) (policy : Policy) (signature : Signature) :
    Option (String × Failure) :=
  match answer limits env policy signature with
  | .error (.failure failure) => some (signature.name, failure)
  | _ => none

/-- A function that is resolved and can be written, by its name. -/
def written? (limits : Limits) (env : Environment) (policy : Policy) (signature : Signature) :
    Option (String × Json) :=
  (answer limits env policy signature).toOption.bind fun schema =>
    (schema.encode limits.listing limits.encoding).toOption.map (signature.name, ·)

/-- The fields of an object that are set one after the other. -/
def fieldsOf (entries : List (String × Json)) : List (String × Json) :=
  entries.foldl (fun fields entry => Json.insertField fields entry.1 entry.2) []

theorem lookup_foldl_insertField (entries start : List (String × Json)) (name : String) :
    (entries.foldl (fun fields entry => Json.insertField fields entry.1 entry.2) start).lookup
        name = (entries.reverse.lookup name).or (start.lookup name) := by
  induction entries generalizing start with
  | nil => rfl
  | cons entry rest ih =>
      rw [List.foldl_cons, ih, Json.lookup_insertField, List.reverse_cons, List.lookup_append,
        Option.or_assoc, lookup_cons, List.lookup_nil]
      by_cases hname : name = entry.1
      · rw [if_pos hname, if_pos hname, Option.some_or]
      · rw [if_neg hname, if_neg hname, Option.none_or]

/-- A name has the value that was set last. -/
theorem lookup_fieldsOf (entries : List (String × Json)) (name : String) :
    (fieldsOf entries).lookup name = entries.reverse.lookup name := by
  rw [fieldsOf, lookup_foldl_insertField, List.lookup_nil, Option.or_none]

/-- The schema of the last function of a name that is resolved. -/
def lastResolved? (limits : Limits) (env : Environment) (policy : Policy)
    (selected : List Signature) (name : String) : Option SignatureSchema :=
  (selected.reverse.filterMap (resolved? limits env policy)).lookup name

theorem lookup_written (limits : Limits) (env : Environment) (policy : Policy) (name : String)
    {signatures : List Signature}
    (h : ∀ signature ∈ signatures, ∀ schema, answer limits env policy signature = .ok schema →
      ∃ json, schema.encode limits.listing limits.encoding = .ok json) :
    (signatures.filterMap (written? limits env policy)).lookup name =
      ((signatures.filterMap (resolved? limits env policy)).lookup name).bind fun schema =>
        (schema.encode limits.listing limits.encoding).toOption := by
  induction signatures with
  | nil => rfl
  | cons signature rest ih =>
      obtain ⟨hsignature, hrest⟩ := List.forall_mem_cons.mp h
      cases hanswer : answer limits env policy signature with
      | error fault =>
          have hwritten : written? limits env policy signature = none := by
            rw [written?, hanswer]
            rfl
          have hresolved : resolved? limits env policy signature = none := by
            rw [resolved?, hanswer]
            rfl
          rw [List.filterMap_cons_none hwritten, List.filterMap_cons_none hresolved, ih hrest]
      | ok schema =>
          obtain ⟨json, hencode⟩ := hsignature schema hanswer
          have hresolved :
              resolved? limits env policy signature = some (signature.name, schema) := by
            rw [resolved?, hanswer]
            rfl
          have hwritten : written? limits env policy signature = some (signature.name, json) := by
            simp [written?, hanswer, Except.toOption, hencode]
          rw [List.filterMap_cons_some hwritten, List.filterMap_cons_some hresolved,
            lookup_cons, lookup_cons, ih hrest]
          by_cases hname : name = signature.name
          · rw [if_pos hname, if_pos hname, Option.bind_some, hencode]
            rfl
          · rw [if_neg hname, if_neg hname]

/-- Whether a function is asked for, or all are, and it is not ignored. -/
def selects (chosen ignored : List String) (name : String) : Bool :=
  (chosen = [] || name ∈ chosen) && name ∉ ignored

/-- Whether a function is asked for, or all are, and the settings tell that it is not ignored. -/
def admits (settings : Settings) (chosen : List String) (name : String) : Bool :=
  (chosen = [] || name ∈ chosen) && (settings.ignores name).toOption = some false

/-- What a notice reports about a function that failed. -/
def Notice.failed? : Notice → Option (String × Failure)
  | .event _ => none
  | .functionFailed name failure => some (name, failure)

/-- What a run has to show for the functions that were selected so far. -/
structure Accounts (limits : Limits) (env : Environment) (policy : Policy)
    (selected : List Signature) (progress : Run.Progress) (notices : List Notice) : Prop where
  fields : progress.fields = fieldsOf (selected.filterMap (written? limits env policy))
  reported : notices.filterMap Notice.failed? = selected.filterMap (reported? limits env policy)
  failures : progress.failures = (selected.filterMap (reported? limits env policy)).length
  written : ∀ signature ∈ selected, ∀ schema, answer limits env policy signature = .ok schema →
    ∃ json, schema.encode limits.listing limits.encoding = .ok json

section Concat

variable {α β : Type} {f : α → Option β} {x : α} {y : β} (xs : List α)

theorem filterMap_concat_of_none (h : f x = none) : (xs ++ [x]).filterMap f = xs.filterMap f := by
  rw [List.filterMap_append, List.filterMap_cons_none h, List.filterMap_nil, List.append_nil]

theorem filterMap_concat_of_some (h : f x = some y) :
    (xs ++ [x]).filterMap f = xs.filterMap f ++ [y] := by
  rw [List.filterMap_append, List.filterMap_cons_some h, List.filterMap_nil]

end Concat

theorem filterMap_failed?_events (events : List Event) :
    (events.map Notice.event).filterMap Notice.failed? = [] := by
  simp [List.filterMap_map, Function.comp_def, Notice.failed?]

namespace Accounts

variable {limits : Limits} {env : Environment} {policy : Policy} {selected : List Signature}
  {progress : Run.Progress} {notices : List Notice} {signature : Signature}

theorem empty (hnotices : notices.filterMap Notice.failed? = []) :
    Accounts limits env policy [] {} notices where
  fields := rfl
  reported := hnotices
  failures := rfl
  written := fun _ h => absurd h List.not_mem_nil

variable (h : Accounts limits env policy selected progress notices)

include h

theorem quiet (events : List Event) :
    Accounts limits env policy selected progress (notices ++ events.map .event) where
  fields := h.fields
  reported := by rw [List.filterMap_append, filterMap_failed?_events, List.append_nil, h.reported]
  failures := h.failures
  written := h.written

theorem resolved {schema : SignatureSchema} {json : Json}
    (hanswer : answer limits env policy signature = .ok schema)
    (hencode : schema.encode limits.listing limits.encoding = .ok json) :
    Accounts limits env policy (selected ++ [signature])
      { progress with fields := Json.insertField progress.fields signature.name json } notices := by
  have hwritten : written? limits env policy signature = some (signature.name, json) := by
    rw [written?, hanswer]
    simp [Except.toOption, hencode]
  have hreported : reported? limits env policy signature = none := by rw [reported?, hanswer]
  have hschema : ∀ schema', answer limits env policy signature = .ok schema' →
      ∃ json, schema'.encode limits.listing limits.encoding = .ok json := by
    intro schema' hschema'
    rw [hanswer] at hschema'
    obtain rfl := Except.ok.inj hschema'
    exact ⟨json, hencode⟩
  refine ⟨?_, ?_, ?_, ?_⟩
  · rw [filterMap_concat_of_some selected hwritten, fieldsOf, List.foldl_append, ← fieldsOf,
      ← h.fields]
    rfl
  · rw [filterMap_concat_of_none selected hreported, h.reported]
  · rw [filterMap_concat_of_none selected hreported]
    exact h.failures
  · exact List.forall_mem_append.mpr ⟨h.written, List.forall_mem_singleton.mpr hschema⟩

theorem failed {failure : Failure}
    (hanswer : answer limits env policy signature = .error (.failure failure)) :
    Accounts limits env policy (selected ++ [signature])
      { progress with failures := progress.failures + 1 }
      (notices ++ [.functionFailed signature.name failure]) := by
  have hwritten : written? limits env policy signature = none := by rw [written?, hanswer]; rfl
  have hreported : reported? limits env policy signature = some (signature.name, failure) := by
    rw [reported?, hanswer]
  have hschema : ∀ schema, answer limits env policy signature = .ok schema →
      ∃ json, schema.encode limits.listing limits.encoding = .ok json := by
    intro schema hschema
    rw [hanswer] at hschema
    cases hschema
  refine ⟨?_, ?_, ?_, ?_⟩
  · rw [filterMap_concat_of_none selected hwritten]
    exact h.fields
  · rw [filterMap_concat_of_some selected hreported, ← h.reported]
    exact filterMap_concat_of_some notices rfl
  · rw [filterMap_concat_of_some selected hreported, List.length_append, ← h.failures]
    rfl
  · exact List.forall_mem_append.mpr ⟨h.written, List.forall_mem_singleton.mpr hschema⟩

theorem failures_ne_zero_iff : progress.failures ≠ 0 ↔
    ∃ signature ∈ selected, ∃ failure,
      answer limits env policy signature = .error (.failure failure) := by
  rw [h.failures, Ne, List.length_eq_zero_iff]
  constructor
  · intro hnonempty
    obtain ⟨entry, hentry⟩ := List.exists_mem_of_ne_nil _ hnonempty
    obtain ⟨signature, hmem, hreported⟩ := List.mem_filterMap.mp hentry
    rw [reported?] at hreported
    split at hreported
    · next failure hanswer => exact ⟨signature, hmem, failure, hanswer⟩
    · cases hreported
  · rintro ⟨signature, hmem, failure, hanswer⟩
    have hreported : reported? limits env policy signature = some (signature.name, failure) := by
      rw [reported?, hanswer]
    exact List.ne_nil_of_mem (List.mem_filterMap.mpr ⟨signature, hmem, hreported⟩)

end Accounts

/-- A function that breaks off the run. -/
inductive Breaks (limits : Limits) (env : Environment) (policy : Policy) (signature : Signature) :
    Abort → Prop
  | notEncoded {schema : SignatureSchema} {error : EncodeError}
      (resolved : answer limits env policy signature = .ok schema)
      (refused : schema.encode limits.listing limits.encoding = .error error) :
      Breaks limits env policy signature (.notEncoded error)
  | notInteger {problem : Json.IntegerProblem}
      (failed : answer limits env policy signature = .error (.notInteger problem)) :
      Breaks limits env policy signature (.notInteger problem)

/-- A function that is asked for and stops the run: it cannot be told whether it is ignored, or it
is not ignored and breaks the run off. -/
inductive Stops (limits : Limits) (env : Environment) (settings : Settings)
    (chosen : List String) (signature : Signature) : Abort → Prop
  | unsearchable {problem : Settings.Problem} (asked : chosen = [] ∨ signature.name ∈ chosen)
      (ignores : settings.ignores signature.name = .error problem) :
      Stops limits env settings chosen signature (.invalidSettings problem)
  | breaks {abort : Abort} (admitted : admits settings chosen signature.name)
      (h : Breaks limits env settings.policy signature abort) :
      Stops limits env settings chosen signature abort

/-! ### One function -/

namespace Run

variable {α β : Type} {notices notices' : List Notice}

theorem bind_of_ok {m : Run α} {f : α → Run β} {a : α} (h : m notices = .ok a notices') :
    (m >>= f) notices = f a notices' := by
  simp [bind, EStateM.bind, h]

theorem bind_of_error {m : Run α} {f : α → Run β} {abort : Abort}
    (h : m notices = .error abort notices') : (m >>= f) notices = .error abort notices' := by
  simp [bind, EStateM.bind, h]

theorem ofExcept_ok {ε : Type} (abort : ε → Abort) (a : α) :
    ofExcept abort (.ok a) notices = .ok a notices := rfl

/-- What is done about one function of the document. -/
def visit (limits : Limits) (env : Environment) (settings : Settings) (chosen : List String)
    (progress : Progress) (signature : Signature) : Run Progress := do
  if ← isSelected settings chosen signature.name then
    resolveInto limits env settings progress signature
  else return progress

theorem resolveAll_eq (limits : Limits) (env : Environment) (settings : Settings)
    (chosen : List String) (signatures : List Signature) :
    resolveAll limits env settings chosen signatures =
      signatures.foldlM (visit limits env settings chosen) {} := rfl

variable {limits : Limits} {env : Environment} {settings : Settings} {chosen ignored : List String}

theorem ignores_texts (hignored : settings.ignored = some (.array (ignored.map .text)))
    (name : String) : settings.ignores name = .ok (decide (name ∈ ignored)) := by
  have hany : (ignored.any fun other => decide (other = name)) = decide (name ∈ ignored) := by
    rw [Bool.eq_iff_iff]
    simp
  rw [Settings.ignores, hignored]
  simp only [List.any_map, Function.comp_def, hany]

theorem admits_texts (hignored : settings.ignored = some (.array (ignored.map .text)))
    (chosen : List String) (name : String) :
    admits settings chosen name = selects chosen ignored name := by
  by_cases hname : name ∈ ignored <;>
    simp [admits, selects, ignores_texts hignored, hname, Except.toOption]

/-- Whether a function is admitted is found out, unless the settings cannot be searched for it. -/
theorem isSelected_run (settings : Settings) (chosen : List String) (name : String)
    (notices : List Notice) :
    (∃ events : List Event, isSelected settings chosen name notices =
        .ok (admits settings chosen name) (notices ++ events.map .event)) ∨
      ∃ problem, (chosen = [] ∨ name ∈ chosen) ∧ settings.ignores name = .error problem ∧
        isSelected settings chosen name notices = .error (.invalidSettings problem) notices := by
  by_cases hchosen : chosen ≠ [] ∧ name ∉ chosen
  · refine .inl ⟨[], ?_⟩
    have hadmits : admits settings chosen name = false := by simp [admits, hchosen]
    rw [hadmits, List.map_nil, List.append_nil, isSelected, if_pos hchosen]
    rfl
  · have hasked : chosen = [] ∨ name ∈ chosen := by
      by_cases hempty : chosen = []
      · exact .inl hempty
      · exact .inr (by simpa [hempty] using hchosen)
    rw [isSelected, if_neg hchosen]
    cases hignores : settings.ignores name with
    | error problem => exact .inr ⟨problem, hasked, rfl, rfl⟩
    | ok skipped =>
        have hadmits : admits settings chosen name = !skipped := by
          rw [admits, hignores]
          cases skipped <;> simp [hasked, Except.toOption]
        rw [hadmits]
        cases skipped with
        | true => exact .inl ⟨[.functionSkipped name], rfl⟩
        | false =>
            refine .inl ⟨[], ?_⟩
            rw [List.map_nil, List.append_nil]
            rfl

variable {selected signatures : List Signature} {progress : Progress} {signature : Signature}

/-- The function joins those that are accounted for, or it breaks off the run. -/
theorem resolveInto_run (h : Accounts limits env settings.policy selected progress notices)
    (signature : Signature) :
    (∃ progress' notices', resolveInto limits env settings progress signature notices =
        .ok progress' notices' ∧
      Accounts limits env settings.policy (selected ++ [signature]) progress' notices') ∨
    ∃ abort notices', resolveInto limits env settings progress signature notices =
        .error abort notices' ∧
      Breaks limits env settings.policy signature abort := by
  unfold resolveInto
  cases hrun : resolveSignature limits.resolving env settings.policy signature [] with
  | ok schema events =>
      have hanswer : answer limits env settings.policy signature = .ok schema := by
        rw [answer, hrun]
      have hrecord : record events notices = .ok () (notices ++ events.map .event) := rfl
      dsimp only
      rw [bind_of_ok hrecord]
      cases hencode : schema.encode limits.listing limits.encoding with
      | ok json => exact .inl ⟨_, _, rfl, (h.quiet events).resolved hanswer hencode⟩
      | error error => exact .inr ⟨_, _, rfl, .notEncoded hanswer hencode⟩
  | error fault events =>
      have hanswer : answer limits env settings.policy signature = .error fault := by
        rw [answer, hrun]
      cases fault with
      | failure failure => exact .inl ⟨_, _, rfl, (h.quiet events).failed hanswer⟩
      | notInteger problem => exact .inr ⟨_, _, rfl, .notInteger hanswer⟩

/-- A run over functions ends with an account of those that are admitted, or one of them stops
it. -/
def Passed (limits : Limits) (env : Environment) (settings : Settings) (chosen : List String)
    (signatures : List Signature) : EStateM.Result Abort (List Notice) Progress → Prop
  | .ok progress notices =>
    Accounts limits env settings.policy
      (signatures.filter fun signature => admits settings chosen signature.name) progress notices
  | .error abort _ => ∃ signature ∈ signatures, Stops limits env settings chosen signature abort

/-- One step: the function joins those that are accounted for if it is admitted. -/
theorem visit_passed {before : List Signature}
    (h : Accounts limits env settings.policy
      (before.filter fun signature => admits settings chosen signature.name) progress notices)
    (signature : Signature) :
    Passed limits env settings chosen (before ++ [signature])
      (visit limits env settings chosen progress signature notices) := by
  have hlast : signature ∈ before ++ [signature] :=
    List.mem_append_right before (List.mem_singleton_self signature)
  rw [visit]
  obtain ⟨events, hselected⟩ | ⟨problem, hasked, hignores, hselected⟩ :=
    isSelected_run settings chosen signature.name notices
  case inr =>
    rw [bind_of_error hselected]
    exact ⟨signature, hlast, .unsearchable hasked hignores⟩
  rw [bind_of_ok hselected]
  by_cases hadmits : admits settings chosen signature.name
  · rw [if_pos hadmits]
    obtain ⟨progress', notices', hinto, haccounts⟩ | ⟨abort, notices', hinto, hbreaks⟩ :=
      resolveInto_run (h.quiet events) signature
    · rw [hinto]
      simp only [Passed, List.filter_append, List.filter_cons, List.filter_nil, if_pos hadmits]
      exact haccounts
    · rw [hinto]
      exact ⟨signature, hlast, .breaks hadmits hbreaks⟩
  · rw [if_neg hadmits]
    simp only [Passed, List.filter_append, List.filter_cons, List.filter_nil, if_neg hadmits,
      List.append_nil]
    exact h.quiet events

/-- A run over all functions, from any account of those before them. -/
theorem foldlM_visit_passed (before signatures : List Signature)
    (h : Accounts limits env settings.policy
      (before.filter fun signature => admits settings chosen signature.name) progress notices) :
    Passed limits env settings chosen (before ++ signatures)
      (signatures.foldlM (visit limits env settings chosen) progress notices) := by
  induction signatures generalizing before progress notices with
  | nil =>
      rw [List.append_nil]
      exact h
  | cons signature rest ih =>
      have hstep := visit_passed h signature
      -- The first function joins those before the run; the induction goes on from there.
      rw [List.append_cons, List.foldlM_cons]
      cases hvisit : visit limits env settings chosen progress signature notices with
      | ok progress' notices' =>
          rw [hvisit] at hstep
          rw [bind_of_ok hvisit]
          exact ih _ hstep
      | error abort notices' =>
          rw [hvisit] at hstep
          rw [bind_of_error hvisit]
          obtain ⟨stopping, hmem, hstops⟩ := hstep
          exact ⟨stopping, List.mem_append_left _ hmem, hstops⟩

theorem resolveAll_passed (limits : Limits) (env : Environment) (settings : Settings)
    (chosen : List String) (signatures : List Signature) (events : List Event) :
    Passed limits env settings chosen signatures
      (resolveAll limits env settings chosen signatures (events.map .event)) := by
  have hstart : Accounts limits env settings.policy [] {} (events.map .event) :=
    .empty (filterMap_failed?_events events)
  rw [resolveAll_eq]
  exact foldlM_visit_passed [] signatures hstart

/-- A run ends with an account of the functions, or one of them breaks it off. -/
def Settled (limits : Limits) (env : Environment) (policy : Policy)
    (selected : List Signature) :
    EStateM.Result Abort (List Notice) Progress → Prop
  | .ok progress notices => Accounts limits env policy selected progress notices
  | .error abort _ => ∃ signature ∈ selected, Breaks limits env policy signature abort

/-- Where a list of names is ignored, a function stops the run only by breaking it off. -/
theorem resolveAll_settled (hignored : settings.ignored = some (.array (ignored.map .text)))
    (limits : Limits) (env : Environment) (chosen : List String) (signatures : List Signature)
    (events : List Event) :
    Settled limits env settings.policy
      (signatures.filter fun signature => selects chosen ignored signature.name)
      (resolveAll limits env settings chosen signatures (events.map .event)) := by
  have hpassed := resolveAll_passed limits env settings chosen signatures events
  cases hrun : resolveAll limits env settings chosen signatures (events.map .event) with
  | ok progress notices =>
      rw [hrun] at hpassed
      simp only [Passed, admits_texts hignored] at hpassed
      exact hpassed
  | error abort notices =>
      rw [hrun] at hpassed
      obtain ⟨signature, hmem, hstops⟩ := hpassed
      cases hstops with
      | unsearchable _ hignores => cases (ignores_texts hignored _).symm.trans hignores
      | breaks hadmits hbreaks =>
          rw [admits_texts hignored] at hadmits
          exact ⟨signature, List.mem_filter.mpr ⟨hmem, hadmits⟩, hbreaks⟩

end Run

end Command

end TypeSchema
