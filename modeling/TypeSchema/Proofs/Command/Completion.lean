import TypeSchema.Proofs.Command.Selection
import TypeSchema.Proofs.Json.Writing
import TypeSchema.Proofs.Schema.Finite

/-!
# A run writes all or nothing

A run opens its output when its result is complete, and not before. Whatever keeps it from getting
there leaves the files as they were and nothing on the standard output: a command line that is
refused, a document or settings that cannot be loaded, settings that cannot be searched for the name
of a function, a literal of too many digits, schemas that are nested too deeply to be written, or an
output that cannot be had. A function that fails is not among these. It is counted, and the exit
code tells that there was one.

The text that is written is JSON. Its words, quotes and brackets are so by the way they are written;
its numbers are so because they are finite, as is every number of the schemas of a document.
-/

namespace TypeSchema

/-! ### Files that are written -/

namespace Command.Workspace

variable {workspace : Workspace} {place other directory : Place} {path text : String}

theorem contents?_write : (workspace.write place text).contents? place = some text.toUTF8 :=
  List.lookup_cons_self

theorem contents?_write_of_ne (h : other ≠ place) :
    (workspace.write place text).contents? other = workspace.contents? other := by
  have hrest (files : List (Place × ByteArray)) :
      (files.filter (·.1 ≠ place)).lookup other = files.lookup other := by
    induction files with
    | nil => rfl
    | cons file rest ih =>
        by_cases hfile : file.1 = place
        · have hother : (other == file.1) = false := beq_eq_false_iff_ne.mpr (hfile ▸ h)
          rw [List.filter_cons_of_neg (by simpa using hfile), List.lookup_cons, hother, ih]
        · rw [List.filter_cons_of_pos (by simpa using hfile), List.lookup_cons, List.lookup_cons,
            ih]
  rw [contents?, write, put, List.lookup_cons, beq_eq_false_iff_ne.mpr h, hrest]
  rfl

theorem isDirectory_iff : workspace.isDirectory place ↔
    place <+: workspace.directory ∨ (∃ folder ∈ workspace.folders, place <+: folder) ∨
      ∃ file ∈ workspace.files, place <+: file.1.dropLast := by
  simp [isDirectory, or_assoc]

theorem isDirectory_of_inside (h : workspace.isDirectory directory) (inside : place <+: directory) :
    workspace.isDirectory place := by
  rw [isDirectory_iff] at h ⊢
  obtain hdirectory | ⟨folder, hfolder, hprefix⟩ | ⟨file, hfile, hprefix⟩ := h
  · exact .inl (inside.trans hdirectory)
  · exact .inr (.inl ⟨folder, hfolder, inside.trans hprefix⟩)
  · exact .inr (.inr ⟨file, hfile, inside.trans hprefix⟩)

/-- A file in a directory that exists makes no new directories. -/
theorem isDirectory_write (h : workspace.isDirectory place.dropLast) (other : Place) :
    (workspace.write place text).isDirectory other = workspace.isDirectory other := by
  rw [Bool.eq_iff_iff]
  constructor
  · intro hother
    obtain hdirectory | hfolder | ⟨file, hfile, hprefix⟩ := isDirectory_iff.mp hother
    · exact isDirectory_iff.mpr (.inl hdirectory)
    · exact isDirectory_iff.mpr (.inr (.inl hfolder))
    · obtain rfl | hfile := List.mem_cons.mp hfile
      · exact isDirectory_of_inside h hprefix
      · exact isDirectory_iff.mpr (.inr (.inr ⟨file, (List.mem_filter.mp hfile).1, hprefix⟩))
  · intro hother
    obtain hdirectory | hfolder | ⟨file, hfile, hprefix⟩ := isDirectory_iff.mp hother
    · exact isDirectory_iff.mpr (.inl hdirectory)
    · exact isDirectory_iff.mpr (.inr (.inl hfolder))
    · -- The file may be the one that is written over, which stays in its directory.
      refine isDirectory_iff.mpr (.inr (.inr ?_))
      by_cases hplace : file.1 = place
      · exact ⟨(place, text.toUTF8), List.mem_cons_self, hplace ▸ hprefix⟩
      · have hkept : file ∈ workspace.files.filter (·.1 ≠ place) :=
          List.mem_filter.mpr ⟨hfile, decide_eq_true hplace⟩
        exact ⟨file, List.mem_cons_of_mem _ hkept, hprefix⟩

theorem isDirectory_of_target (h : workspace.target path = .ok place) :
    workspace.isDirectory place.dropLast := by
  rw [target] at h
  obtain ⟨-, h⟩ := except_unless_eq_ok_iff.mp h
  obtain ⟨-, h⟩ := except_unless_eq_ok_iff.mp h
  split at h
  · cases h
  · obtain ⟨directory, -, h⟩ := except_bind_eq_ok_iff.mp h
    obtain ⟨hdirectory, h⟩ := except_unless_eq_ok_iff.mp h
    obtain ⟨-, h⟩ := except_unless_eq_ok_iff.mp h
    obtain ⟨-, h⟩ := except_unless_eq_ok_iff.mp h
    obtain ⟨-, h⟩ := except_unless_eq_ok_iff.mp h
    obtain ⟨-, h⟩ := except_unless_eq_ok_iff.mp h
    obtain rfl := except_pure_eq_ok_iff.mp h
    simpa using hdirectory

/-- One file holds a text, and everything else is as it was. -/
structure Changes (before after : Workspace) (place : Place) (text : String) : Prop where
  contents : after.contents? place = some text.toUTF8
  others : ∀ other, other ≠ place → after.contents? other = before.contents? other
  directories : ∀ other, after.isDirectory other = before.isDirectory other
  directory : after.directory = before.directory
  unreadable : after.unreadable = before.unreadable
  unwritable : after.unwritable = before.unwritable

theorem changes_write (h : workspace.target path = .ok place) :
    workspace.Changes (workspace.write place text) place text where
  contents := contents?_write
  others := fun _ => contents?_write_of_ne
  directories := isDirectory_write (isDirectory_of_target h)
  directory := rfl
  unreadable := rfl
  unwritable := rfl

end Command.Workspace

/-! ### The numbers of a result -/

namespace Command

section Finite

variable {limits : Limits} {declarations : List Declaration} {policy : Policy}
  {signature : Signature}

theorem yields_finite (declarations : List Declaration) (policy : Policy) :
    (Environment.ofTable (.ofList declarations)).Yields policy Schema.IsFinite :=
  fun _ _ _ h => resolveWithin_finite h

theorem isFinite_of_written? {entry : String × Json}
    (h : written? limits (.ofTable (.ofList declarations)) policy signature = some entry) :
    entry.2.isFinite := by
  obtain ⟨schema, hschema, h⟩ := Option.bind_eq_some_iff.mp h
  obtain ⟨json, hjson, rfl⟩ := Option.map_eq_some_iff.mp h
  have hfinite := forall_of_answer (yields_finite declarations policy)
    (except_toOption_eq_some_iff.mp hschema)
  exact SignatureSchema.isFinite_encode hfinite (except_toOption_eq_some_iff.mp hjson)

theorem forall_mem_insertField {P : Json → Prop} {fields : List (String × Json)} {name : String}
    {value : Json} (h : ∀ field ∈ fields, P field.2) (hvalue : P value) :
    ∀ field ∈ Json.insertField fields name value, P field.2 := by
  by_cases hname : name ∈ fields.map Prod.fst
  · rw [Json.insertField_of_mem hname]
    refine List.forall_mem_map.mpr fun field hfield => ?_
    split_ifs
    · exact hvalue
    · exact h field hfield
  · rw [Json.insertField_of_not_mem hname]
    exact List.forall_mem_append.mpr ⟨h, List.forall_mem_singleton.mpr hvalue⟩

theorem forall_mem_fieldsOf {P : Json → Prop} {entries : List (String × Json)}
    (h : ∀ entry ∈ entries, P entry.2) : ∀ field ∈ fieldsOf entries, P field.2 := by
  induction entries using List.reverseRecOn with
  | nil => exact List.forall_mem_nil _
  | append_singleton entries entry ih =>
      obtain ⟨hentries, hentry⟩ := List.forall_mem_append.mp h
      rw [fieldsOf, List.foldl_append]
      exact forall_mem_insertField (ih hentries) (hentry entry (List.mem_singleton_self entry))

theorem isFinite_header {workspace : Workspace} {settings : Settings} {parameters : Parameters}
    {header : List (String × Json)} {notices notices' : List Notice}
    (h : Run.comment limits workspace settings parameters notices = .ok header notices') :
    ∀ field ∈ header, field.2.isFinite := by
  rw [Run.comment] at h
  by_cases hcomment : settings.comment.isTruthy
  · rw [if_pos hcomment] at h
    cases hline : line limits.showing workspace parameters.values with
    | ok text =>
        rw [hline] at h
        cases h
        exact List.forall_mem_singleton.mpr rfl
    | error problem =>
        rw [hline] at h
        cases h
  · rw [if_neg hcomment] at h
    cases h
    exact List.forall_mem_nil _

end Finite

/-! ### Input that cannot be loaded -/

namespace Run

section Silent

variable {α β : Type} {step : Run α} {next : α → Run β}

theorem silent_ofExcept {ε : Type} (abort : ε → Abort) (result : Except ε α) :
    Silent (ofExcept abort result) := by
  cases result with
  | ok a => exact ⟨.ok a, rfl⟩
  | error error => exact ⟨.error (abort error), rfl⟩

theorem Silent.bind (h : Silent step) (hnext : ∀ a, Silent (next a)) : Silent (step >>= next) := by
  obtain ⟨result, rfl⟩ := h
  cases result with
  | ok a =>
      obtain ⟨result, hresult⟩ := hnext a
      exact ⟨result, hresult⟩
  | error abort => exact ⟨.error abort, rfl⟩

theorem Silent.run (h : Silent step) :
    (∃ a, ∀ notices, step notices = .ok a notices) ∨
      ∃ abort, ∀ notices, step notices = .error abort notices := by
  obtain ⟨result, rfl⟩ := h
  cases result with
  | ok a => exact .inl ⟨a, fun _ => rfl⟩
  | error abort => exact .inr ⟨abort, fun _ => rfl⟩

end Silent

variable {limits : Limits} {workspace : Workspace} {parameters : Parameters}

theorem contents_silent (workspace : Workspace) (place : Place) :
    Silent (contents workspace place) := by
  rw [contents]
  by_cases hdenied : !workspace.mayRead place
  · rw [if_pos hdenied]
    exact ⟨.error _, rfl⟩
  · rw [if_neg hdenied]
    cases workspace.contents? place with
    | some bytes => exact silent_ofExcept _ _
    | none => exact ⟨.error _, rfl⟩

theorem settings_silent (limits : Limits) (workspace : Workspace) (parameters : Parameters) :
    Silent (settings limits workspace parameters) := by
  rw [settings]
  cases parameters.config with
  | none => exact ⟨.ok _, rfl⟩
  | some place =>
      refine (contents_silent workspace place).bind fun _ => ?_
      refine (silent_ofExcept _ _).bind fun _ => ?_
      exact (silent_ofExcept _ _).bind fun _ => ⟨.ok _, rfl⟩

/-- A file is read only where it may be, and as the text that it holds. -/
theorem decode_of_contents {place : Place} {text : String}
    (h : contents workspace place [] = .ok text []) :
    workspace.mayRead place ∧
      ∃ bytes, workspace.contents? place = some bytes ∧ Text.decode bytes = .ok text := by
  rw [contents] at h
  by_cases hdenied : !workspace.mayRead place
  · rw [if_pos hdenied] at h
    cases h
  · rw [if_neg hdenied] at h
    refine ⟨by simpa using hdenied, ?_⟩
    cases hbytes : workspace.contents? place with
    | none =>
        rw [hbytes] at h
        cases h
    | some bytes =>
        rw [hbytes] at h
        dsimp only at h
        cases hdecode : Text.decode bytes with
        | error problem =>
            rw [hdecode] at h
            cases h
        | ok decoded =>
            rw [hdecode] at h
            cases h
            exact ⟨bytes, rfl, hdecode⟩

/-- A run that cannot load its document and its settings is broken off. -/
theorem loads_or_breaks (limits : Limits) (workspace : Workspace) (parameters : Parameters) :
    (∃ document settings, Loads limits workspace parameters document settings) ∨
      ∃ abort, result limits workspace parameters [] = .error abort [] := by
  obtain ⟨text, hcontents⟩ | ⟨abort, hcontents⟩ := (contents_silent workspace parameters.path).run
  case inr => exact .inr ⟨abort, bind_of_error (hcontents _)⟩
  obtain ⟨permitted, bytes, hbytes, hdecode⟩ := decode_of_contents (hcontents [])
  rw [result, bind_of_ok (hcontents [])]
  cases hjson : Json.readFile limits.reading text with
  | error error => exact .inr ⟨_, rfl⟩
  | ok json =>
      rw [bind_of_ok (ofExcept_ok _ _)]
      obtain ⟨settings, hsettings⟩ | ⟨abort, hsettings⟩ :=
        (settings_silent limits workspace parameters).run
      · rw [bind_of_ok (hsettings _)]
        cases hdocument : Format.readDocument limits (Text.held parameters.path.name) json with
        | error error => exact .inr ⟨_, rfl⟩
        | ok document =>
            exact .inl ⟨document, settings, permitted,
              ⟨bytes, text, json, hbytes, hdecode, hjson, hdocument⟩, hsettings []⟩
      · exact .inr ⟨abort, bind_of_error (hsettings _)⟩

end Run

/-! ### How a run ends -/

/-- The functions of a document that are asked for and that the settings do not ignore. -/
def admitted (document : Document) (settings : Settings) (chosen : List String) :
    List Signature :=
  document.functions.filter fun signature => admits settings chosen signature.name

/-- A run leaves no trace but what it reports: the files are as they were, nothing is printed, and
the exit code tells that something is wrong. -/
structure LeavesNothing (workspace : Workspace) (outcome : Outcome) : Prop where
  files : outcome.files workspace = workspace
  printed : outcome.standardOutput = ""
  exitCode : outcome.exitCode ≠ 0

/-- A text is all that a run prints, or else the whole of the file that the output names. -/
inductive Delivered (workspace : Workspace) (output text : String) (outcome : Outcome) : Prop
  | printed (dash : output = "-") (printed : outcome.standardOutput = text)
      (files : outcome.files workspace = workspace)
  | saved {place : Place} (named : output ≠ "-") (opens : workspace.target output = .ok place)
      (printed : outcome.standardOutput = "")
      (changes : workspace.Changes (outcome.files workspace) place text)

/-- What breaks off a run once its command line is read. A function that merely fails does not. -/
inductive Interrupts (limits : Limits) (workspace : Workspace) (parameters : Parameters) :
    Abort → Prop
  | unloaded {abort : Abort}
      (unloaded : ¬ ∃ document settings, Run.Loads limits workspace parameters document settings) :
      Interrupts limits workspace parameters abort
  | unsearchable {document : Document} {settings : Settings} {signature : Signature}
      {problem : Settings.Problem} (loads : Run.Loads limits workspace parameters document settings)
      (mem : signature ∈ document.functions)
      (asked : parameters.chosen = [] ∨ signature.name ∈ parameters.chosen)
      (ignores : settings.ignores signature.name = .error problem) :
      Interrupts limits workspace parameters (.invalidSettings problem)
  | tooManyDigits {document : Document} {settings : Settings} {signature : Signature}
      {schema : SignatureSchema} {n : Int}
      (loads : Run.Loads limits workspace parameters document settings)
      (mem : signature ∈ admitted document settings parameters.chosen)
      (resolved : answer limits (.ofTable (.ofList document.declarations)) settings.policy
        signature = .ok schema)
      (long : 10 ^ Number.digitLimit ≤ n.natAbs)
      (contains : ∃ inner ∈ schema.schemas, inner.Contains (.bigIntLiteral n)) :
      Interrupts limits workspace parameters (.notEncoded (.tooManyDigits n))
  | tooDeep {document : Document} {settings : Settings} {signature : Signature}
      {schema : SignatureSchema}
      (loads : Run.Loads limits workspace parameters document settings)
      (mem : signature ∈ admitted document settings parameters.chosen)
      (resolved : answer limits (.ofTable (.ofList document.declarations)) settings.policy
        signature = .ok schema)
      (deep : limits.encoding < schema.calls limits.listing) :
      Interrupts limits workspace parameters (.notEncoded .tooDeep)
  | undelivered {abort : Abort} (ofOutput : abort.isOfOutput) :
      Interrupts limits workspace parameters abort

/-- A run has a result for its functions, and the text of it is delivered, whether or not there are
functions that fail. The exit code tells if there are. -/
structure Completes (limits : Limits) (workspace : Workspace) (parameters : Parameters)
    (document : Document) (settings : Settings) (outcome : Outcome) : Prop where
  result : ∃ (result : Json) (indent : Option Nat),
    result.get? "functions" = some (.object (fieldsOf
        ((admitted document settings parameters.chosen).filterMap
          (written? limits (.ofTable (.ofList document.declarations)) settings.policy)))) ∧
      Json.IsText (result.write indent) ∧
      Delivered workspace parameters.output (result.write indent ++ "\n") outcome
  exitCode_eq_one_iff : outcome.exitCode = 1 ↔
    ∃ signature ∈ admitted document settings parameters.chosen, ∃ failure,
      answer limits (.ofTable (.ofList document.declarations)) settings.policy signature =
        .error (.failure failure)
  exitCode_le_one : outcome.exitCode ≤ 1

/-- How the command ends that is not asked for help: its command line is refused or cannot be tried
as paths, or the run is broken off, and then nothing is left of it; or else the run completes. -/
inductive IsAllOrNothing (limits : Limits) (workspace : Workspace) (arguments : List String)
    (outcome : Outcome) : Prop
  | refused {error : UsageError}
      (request : Request.read workspace arguments = .error (.usage error))
      (ending : outcome.ending = .refused error) (nothing : LeavesNothing workspace outcome)
  | nullCharacter (request : Request.read workspace arguments = .error .nullCharacter)
      (ending : outcome.ending = .broken .nullCharacter) (nothing : LeavesNothing workspace outcome)
  | interrupted {parameters : Parameters} {abort : Abort}
      (request : Request.read workspace arguments = .ok (.run parameters))
      (ending : outcome.ending = .broken abort)
      (interrupts : Interrupts limits workspace parameters abort)
      (nothing : LeavesNothing workspace outcome)
  | completed {parameters : Parameters} {document : Document} {settings : Settings}
      (request : Request.read workspace arguments = .ok (.run parameters))
      (loads : Run.Loads limits workspace parameters document settings)
      (completes : Completes limits workspace parameters document settings outcome)

section Endings

variable {workspace : Workspace} {outcome : Outcome}

theorem leavesNothing_of_refused {error : UsageError} (h : outcome.ending = .refused error) :
    LeavesNothing workspace outcome where
  files := by rw [Outcome.files, Outcome.written?, h]; rfl
  printed := by rw [Outcome.standardOutput, h]
  exitCode := by rw [Outcome.exitCode, h]; exact Nat.succ_ne_zero 1

theorem leavesNothing_of_broken {abort : Abort} (h : outcome.ending = .broken abort) :
    LeavesNothing workspace outcome where
  files := by rw [Outcome.files, Outcome.written?, h]; rfl
  printed := by rw [Outcome.standardOutput, h]
  exitCode := by rw [Outcome.exitCode, h]; exact Nat.succ_ne_zero 0

theorem delivered_of_finished {output text : String} {target : Target} {failures : Nat}
    (leads : Run.Leads workspace output target)
    (h : outcome.ending = .finished target text failures) :
    Delivered workspace output text outcome := by
  cases leads with
  | standardOutput dash =>
      have hfiles : outcome.files workspace = workspace := by
        rw [Outcome.files, Outcome.written?, h]
        rfl
      exact .printed dash (by rw [Outcome.standardOutput, h]) hfiles
  | @file place named opens =>
      have hfiles : outcome.files workspace = workspace.write place text := by
        rw [Outcome.files, Outcome.written?, h]
        rfl
      refine .saved named opens (by rw [Outcome.standardOutput, h]) ?_
      rw [hfiles]
      exact Workspace.changes_write opens

end Endings

section Runs

open Run

variable {limits : Limits} {workspace : Workspace} {parameters : Parameters}
  {document : Document} {settings : Settings} {progress : Progress} {notices notices' : List Notice}

/-- Where all functions are accounted for and the result is delivered, the run is complete. -/
theorem completes_of_accounts {header : List (String × Json)} {target : Target}
    {indent : Option Nat} (unnamed : header.lookup "functions" = none)
    (finite : ∀ field ∈ header, field.2.isFinite)
    (accounts : Accounts limits (.ofTable (.ofList document.declarations)) settings.policy
      (admitted document settings parameters.chosen) progress notices)
    (leads : Leads workspace parameters.output target)
    (h : result limits workspace parameters [] = .ok (.finished target
      ((Json.object (header ++ [("functions", .object progress.fields)])).write indent ++ "\n")
      progress.failures) notices') :
    Completes limits workspace parameters document settings (parameters.run limits workspace) := by
  have hrun := run_of_ok h
  have hfields : ∀ field ∈ progress.fields, field.2.isFinite := by
    rw [accounts.fields]
    refine forall_mem_fieldsOf (P := (·.isFinite)) fun entry hentry => ?_
    obtain ⟨signature, -, hwritten⟩ := List.mem_filterMap.mp hentry
    exact isFinite_of_written? hwritten
  have hexit : (parameters.run limits workspace).exitCode =
      if progress.failures = 0 then 0 else 1 := by
    rw [hrun]
    rfl
  refine ⟨⟨_, indent, ?_, Json.isText_write indent ?_, delivered_of_finished leads (by rw [hrun])⟩,
    ?_, ?_⟩
  · rw [get?_functions unnamed, accounts.fields]
  · exact Json.isFinite_object_iff.mpr (List.forall_mem_append.mpr
      ⟨finite, List.forall_mem_singleton.mpr (Json.isFinite_object_iff.mpr hfields)⟩)
  · rw [← accounts.failures_ne_zero_iff, hexit]
    split_ifs with hzero <;> simp [hzero]
  · rw [hexit]
    split_ifs <;> decide

/-- A run that has loaded its document and its settings is broken off, or it completes. -/
theorem interrupted_or_completes (loads : Loads limits workspace parameters document settings) :
    (∃ abort, (parameters.run limits workspace).ending = .broken abort ∧
        Interrupts limits workspace parameters abort) ∨
      Completes limits workspace parameters document settings
        (parameters.run limits workspace) := by
  have hresult := loads.result_eq
  generalize document.declarations.flatMap DeclarationTable.additionEvents = events at hresult
  obtain ⟨header, hheader, hcomment⟩ | ⟨abort, habort, hcomment⟩ :=
    comment_delivers limits workspace settings parameters (events.map .event)
  case inr =>
    rw [conclude, bind_of_error hcomment] at hresult
    exact .inl ⟨abort, by rw [run_of_error hresult], .undelivered habort⟩
  have hpassed := resolveAll_passed limits (.ofTable (.ofList document.declarations)) settings
    parameters.chosen document.functions events
  rw [conclude, bind_of_ok hcomment] at hresult
  cases hresolve : resolveAll limits (.ofTable (.ofList document.declarations)) settings
      parameters.chosen document.functions (events.map .event) with
  | error abort notices =>
      rw [hresolve] at hpassed
      rw [bind_of_error hresolve] at hresult
      refine .inl ⟨abort, by rw [run_of_error hresult], ?_⟩
      obtain ⟨signature, hmem, hstops⟩ := hpassed
      cases hstops with
      | unsearchable asked ignores => exact .unsearchable loads hmem asked ignores
      | breaks hadmits hbreaks =>
          have hadmitted : signature ∈ admitted document settings parameters.chosen :=
            List.mem_filter.mpr ⟨hmem, hadmits⟩
          obtain ⟨schema, error, hanswer, rfl, hknown, hobstacle⟩ := hbreaks.exists_obstacle
          cases hobstacle with
          | unknownKind => exact absurd rfl (hknown _)
          | tooManyDigits hinner hpart long =>
              exact .tooManyDigits loads hadmitted hanswer long ⟨_, hinner, hpart⟩
          | tooDeep deep => exact .tooDeep loads hadmitted hanswer deep
  | ok progress notices =>
      rw [hresolve] at hpassed
      rw [bind_of_ok hresolve] at hresult
      obtain ⟨ending, ⟨target, indent, rfl, hleads⟩, hdeliver⟩ | ⟨abort, habort, hdeliver⟩ :=
        deliver_leads limits workspace parameters
          (.object (header ++ [("functions", .object progress.fields)])) progress.failures notices
      · rw [hdeliver] at hresult
        exact .inr (completes_of_accounts hheader (isFinite_header hcomment) hpassed hleads hresult)
      · rw [hdeliver] at hresult
        exact .inl ⟨abort, by rw [run_of_error hresult], .undelivered habort⟩

theorem isAllOrNothing_of_run {arguments : List String}
    (request : Request.read workspace arguments = .ok (.run parameters)) :
    IsAllOrNothing limits workspace arguments (parameters.run limits workspace) := by
  by_cases hloads : ∃ document settings, Loads limits workspace parameters document settings
  · obtain ⟨document, settings, loads⟩ := hloads
    obtain ⟨abort, hending, hinterrupts⟩ | hcompletes := interrupted_or_completes loads
    · exact .interrupted request hending hinterrupts (leavesNothing_of_broken hending)
    · exact .completed request loads hcompletes
  · obtain ⟨abort, hresult⟩ := (loads_or_breaks limits workspace parameters).resolve_left hloads
    have hending : (parameters.run limits workspace).ending = .broken abort := by
      rw [run_of_error hresult]
    exact .interrupted request hending (.unloaded hloads) (leavesNothing_of_broken hending)

/-- **A run writes all or nothing.** A command that is refused or broken off leaves every file as it
was and prints nothing; any other writes one complete JSON text, whichever functions fail, and its
exit code tells whether one did. -/
theorem writes_all_or_nothing {arguments : List String}
    (h : Request.read workspace arguments ≠ .ok .help) :
    IsAllOrNothing limits workspace arguments (execute limits workspace arguments) := by
  cases hread : Request.read workspace arguments with
  | error refusal =>
      cases refusal with
      | usage error =>
          have hending : (execute limits workspace arguments).ending = .refused error := by
            rw [execute, hread]
          exact .refused hread hending (leavesNothing_of_refused hending)
      | nullCharacter =>
          have hending : (execute limits workspace arguments).ending = .broken .nullCharacter := by
            rw [execute, hread]
          exact .nullCharacter hread hending (leavesNothing_of_broken hending)
  | ok request =>
      cases request with
      | help => exact absurd hread h
      | run parameters =>
          have hexecute : execute limits workspace arguments = parameters.run limits workspace := by
            rw [execute, hread]
          rw [hexecute]
          exact isAllOrNothing_of_run hread

theorem read_overloads :
    Request.read overloads ["--indent", "0", "api", "schemas"] =
      .ok (.run { overloadsParameters with output := "schemas" }) := rfl

theorem writes_all_or_nothing_overloads :
    Request.read overloads ["--indent", "0", "api", "schemas"] ≠ .ok .help ∧
      IsAllOrNothing .usual overloads ["--indent", "0", "api", "schemas"]
        (execute .usual overloads ["--indent", "0", "api", "schemas"]) := by
  have hread : Request.read overloads ["--indent", "0", "api", "schemas"] ≠ .ok .help := by
    rw [read_overloads]
    nofun
  exact ⟨hread, writes_all_or_nothing hread⟩

end Runs

end Command

end TypeSchema
