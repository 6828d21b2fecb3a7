import TypeSchema.Proofs.Basic
import TypeSchema.Command.Line

/-!
# Recording a command line

A run records its command line, and the texts in it are tried as paths. That fails for a text with a
name that no file can have; a value that is no text fails only if it cannot be shown. Two runs that
are asked for different functions differ in the names of these alone, so nothing else can keep one
of them from being recorded when the other one is.
-/

namespace TypeSchema.Command

/-! ### Recorded values -/

/-- Whether a value is recorded: it does not count as false, and it is not the default. -/
def isRecorded (default value : Json) : Bool := value.isTruthy && !isDefault default value

/-- What an option is repeated for: the items of a list, and any other value by itself. -/
def itemsOf : Json → List Json
  | .array items => items
  | value => [value]

section Values

variable {showing : Nat} {workspace : Workspace} {values : Values} {name : String} {value : Json}
  {switch : Switch}

theorem recorded?_of_lookup (hlookup : values.lookup name = some value) (default : Json) :
    recorded? values name default =
      if isRecorded default value then some value else none := by
  rw [recorded?, hlookup, Option.filter_some]
  rfl

theorem find_ne_nameTooLong_of_valueWord {text word : String}
    (h : valueWord showing workspace (.text text) = .ok word) :
    workspace.find text ≠ .error .nameTooLong := by
  intro hlong
  rw [valueWord, hlong] at h
  cases h

/-- What is recorded of an argument is recorded as its value. -/
theorem exists_valueWord_of_argumentWords {default : Json} {words : List String}
    (hlookup : values.lookup name = some value)
    (hgiven : isRecorded default value)
    (h : argumentWords showing workspace values (name, default) = .ok words) :
    ∃ word, valueWord showing workspace value = .ok word := by
  rw [argumentWords, recorded?_of_lookup hlookup, if_pos hgiven] at h
  obtain ⟨word, hword, -⟩ := except_map_eq_ok_iff.mp h
  exact ⟨word, hword⟩

/-- What is recorded of an option is recorded as the items of its value. -/
theorem exists_valueWord_of_switchWords {words : List String}
    (hname : switch.parameter? = some name) (hlookup : values.lookup name = some value)
    (htakes : switch.takesValue) (hgiven : isRecorded switch.default value)
    (h : switchWords showing workspace values switch = .ok words) :
    ∀ item ∈ itemsOf value, ∃ word, valueWord showing workspace item = .ok word := by
  rw [switchWords, hname, Option.bind_some, recorded?_of_lookup hlookup, if_pos hgiven] at h
  intro item hitem
  obtain ⟨found, hfound⟩ := forall_ok_of_flatMapM ((if_pos htakes).symm.trans h) item hitem
  obtain ⟨word, hword, -⟩ := except_bind_eq_ok_iff.mp hfound
  exact ⟨word, hword⟩

end Values

/-! ### Whole command lines -/

section Recording

variable {showing : Nat} {workspace : Workspace} {values values' : Values} {text : String}
  {P : Abort → Prop}

/-- A command line that is recorded is recorded in all its parts. -/
theorem parts_of_line (h : line showing workspace values = .ok text) :
    (∀ argument ∈ argumentDefaults, ∃ words,
        argumentWords showing workspace values argument = .ok words) ∧
      ∀ switch ∈ Switch.all, ∃ words, switchWords showing workspace values switch = .ok words := by
  obtain ⟨words, hwords, -⟩ := except_map_eq_ok_iff.mp h
  obtain ⟨arguments, harguments, hwords⟩ := except_bind_eq_ok_iff.mp hwords
  obtain ⟨options, hoptions, -⟩ := except_bind_eq_ok_iff.mp hwords
  exact ⟨forall_ok_of_flatMapM harguments, forall_ok_of_flatMapM hoptions⟩

/-- A command line is not recorded for a reason that keeps a value from being recorded. -/
theorem line_failsOnly_of_values (h : ∀ value, FailsOnly P (valueWord showing workspace value)) :
    FailsOnly P (line showing workspace values) := by
  refine FailsOnly.map (FailsOnly.bind (.flatMapM fun argument _ => ?_) fun _ _ =>
    FailsOnly.bind (.flatMapM fun switch _ => ?_) fun _ _ => failsOnly_ok _) _
  · rw [argumentWords]
    split
    · exact failsOnly_ok _
    · exact (h _).map _
  · rw [switchWords]
    split
    · exact failsOnly_ok _
    · split
      · exact .flatMapM fun item _ => (h item).bind fun _ _ => failsOnly_ok _
      · exact failsOnly_ok _

/-- Where two runs differ in the functions that they are asked for, these alone keep the second one
from recording its command line if the first one does. -/
theorem line_failsOnly
    (same : ∀ name, name ≠ "functions" → values'.lookup name = values.lookup name)
    (h : line showing workspace values = .ok text)
    (hfunctions : FailsOnly P (switchWords showing workspace values' .function)) :
    FailsOnly P (line showing workspace values') := by
  obtain ⟨harguments, hoptions⟩ := parts_of_line h
  refine FailsOnly.map (FailsOnly.bind (.flatMapM fun argument hargument => ?_) fun _ _ =>
    FailsOnly.bind (.flatMapM fun switch hswitch => ?_) fun _ _ => failsOnly_ok _) _
  · have hname : argument.1 ≠ "functions" :=
      (by decide : ∀ argument ∈ argumentDefaults.map Prod.fst, argument ≠ "functions") _
        (List.mem_map_of_mem hargument)
    obtain ⟨found, hfound⟩ := harguments argument hargument
    have hequal : argumentWords showing workspace values' argument =
        argumentWords showing workspace values argument := by
      rw [argumentWords, argumentWords, recorded?, recorded?, same _ hname]
    rw [hequal, hfound]
    exact failsOnly_ok found
  · by_cases hfunction : switch = .function
    · rw [hfunction]
      exact hfunctions
    · have hname : ∀ name, switch.parameter? = some name → name ≠ "functions" := by
        cases switch <;> first | exact absurd rfl hfunction | decide
      obtain ⟨found, hfound⟩ := hoptions switch hswitch
      have hequal : switchWords showing workspace values' switch =
          switchWords showing workspace values switch := by
        cases hparameter : switch.parameter? with
        | none =>
            rw [switchWords, switchWords, hparameter]
            rfl
        | some name =>
            rw [switchWords, switchWords, hparameter, Option.bind_some, Option.bind_some,
              recorded?, recorded?, same name (hname name hparameter)]
      rw [hequal, hfound]
      exact failsOnly_ok found

/-- A text that is too long a path cannot be recorded. -/
theorem valueWord_failsOnly (name : String) :
    FailsOnly (fun abort => workspace.find name = .error .nameTooLong ∧
      abort = .path .nameTooLong (tidyPath name)) (valueWord showing workspace (.text name)) := by
  rw [valueWord]
  split
  · exact failsOnly_ok _
  · next hfind => exact failsOnly_error ⟨hfind, rfl⟩
  · exact failsOnly_ok _

theorem functionWords_failsOnly {chosen : List String}
    (hvalues : values.lookup "functions" = some (.array (chosen.map .text))) :
    FailsOnly (fun abort => ∃ name ∈ chosen, workspace.find name = .error .nameTooLong ∧
        abort = .path .nameTooLong (tidyPath name))
      (switchWords showing workspace values .function) := by
  rw [switchWords]
  split
  · exact failsOnly_ok _
  · next value hvalue =>
      have hlookup : values.lookup "functions" = some value :=
        (Option.filter_eq_some_iff.mp hvalue).1
      obtain rfl := Option.some.inj (hvalues.symm.trans hlookup)
      have htakes : Switch.function.takesValue := rfl
      rw [if_pos htakes]
      refine .flatMapM fun item hitem => ?_
      obtain ⟨name, hname, rfl⟩ := List.mem_map.mp hitem
      refine ((valueWord_failsOnly name).mono fun abort habort => ?_).bind
        fun _ _ => failsOnly_ok _
      exact ⟨name, hname, habort⟩

/-- If the command line is recorded, then no function that is asked for has too long a name. -/
theorem find_ne_nameTooLong_of_line {chosen : List String}
    (hvalues : values.lookup "functions" = some (.array (chosen.map .text)))
    (h : line showing workspace values = .ok text) :
    ∀ name ∈ chosen, workspace.find name ≠ .error .nameTooLong := by
  intro name hname
  obtain ⟨found, hfound⟩ := (parts_of_line h).2 .function (by decide)
  have hgiven : isRecorded Switch.function.default (.array (chosen.map .text)) := by
    have hnonempty : chosen ≠ [] := List.ne_nil_of_mem hname
    simp [isRecorded, Json.isTruthy, isDefault, hnonempty]
  obtain ⟨word, hword⟩ := exists_valueWord_of_switchWords rfl hvalues rfl hgiven hfound _
    (List.mem_map_of_mem hname)
  exact find_ne_nameTooLong_of_valueWord hword

end Recording

/-! ### Names that are too long -/

theorem length_le_utf8ByteSize (cs : List Char) : cs.length ≤ (String.ofList cs).utf8ByteSize := by
  induction cs with
  | nil => exact Nat.zero_le _
  | cons c rest ih =>
      rw [String.ofList_cons, String.utf8ByteSize_append, String.utf8ByteSize_singleton,
        List.length_cons, Nat.add_comm]
      exact Nat.add_le_add c.utf8Size_pos ih

theorem splitSlashes_of_not_mem {cs : List Char} (h : '/' ∉ cs) : splitSlashes cs = [cs] := by
  induction cs with
  | nil => rfl
  | cons c rest ih =>
      obtain ⟨hne, hrest⟩ := not_or.mp (mt List.mem_cons.mpr h)
      rw [splitSlashes, if_neg fun heq => hne heq.symm, ih hrest]

theorem movingNames_single {name : String} (single : '/' ∉ name.toList) (nonempty : name ≠ "")
    (moving : name ≠ ".") : movingNames name = [name] := by
  have hempty : name.toList ≠ [] := fun h => nonempty (String.toList_inj.mp (by rw [h]; rfl))
  simp [movingNames, pathNames, splitSlashes_of_not_mem single, hempty, moving]

/-- A single name is looked for in the working directory. -/
theorem Workspace.start_single (workspace : Workspace) {name : String}
    (single : '/' ∉ name.toList) : workspace.start name = workspace.directory := by
  refine if_neg fun habsolute => single ?_
  exact List.mem_of_mem_head? (of_decide_eq_true habsolute)

/-- A single name that no file can have is too long a path from any directory. -/
theorem Workspace.find_nameTooLong (workspace : Workspace) {name : String}
    (single : '/' ∉ name.toList) (noNull : '\x00' ∉ name.toList)
    (long : nameLimit < name.utf8ByteSize) : workspace.find name = .error .nameTooLong := by
  have hshort : ∀ other : String, other.utf8ByteSize ≤ nameLimit → name ≠ other := by
    rintro other hother rfl
    exact absurd hother (Nat.not_le_of_lt long)
  have hdot : name ≠ "." := hshort "." (by decide)
  have hnames : movingNames name = [name] :=
    movingNames_single single (hshort "" (by decide)) hdot
  have hdirectory : workspace.isDirectory workspace.directory := by
    simp [isDirectory]
  rw [find, if_neg (by simpa [holdsNull] using noNull), hnames, workspace.start_single single]
  split_ifs
  · rfl
  · rw [walk, if_neg (by simp [hdirectory]), if_neg hdot, if_neg (hshort ".." (by decide)),
      if_pos long]

/-! ### The same command for other functions -/

/-- The run that is asked for the functions of the given names alone, or for all of them. -/
def Parameters.asking (parameters : Parameters) (chosen : List String) : Parameters :=
  { parameters with functions := chosen }

section Header

variable {showing : Nat} {workspace : Workspace} {parameters : Parameters}
  {chosen chosen' : List String}

theorem lookup_asking (name : String) (h : name ≠ "functions") :
    (parameters.asking chosen').values.lookup name =
      (parameters.asking chosen).values.lookup name := by
  simp only [Parameters.values, Parameters.asking, lookup_cons, if_neg h]

theorem lookup_functions_asking :
    (parameters.asking chosen).values.lookup "functions" = some (.array (chosen.map .text)) := by
  simp [Parameters.values, Parameters.asking, lookup_cons]

/-- A name that is too long for a path is all that keeps a run for some functions from recording its
command line, if the run for all functions can. -/
theorem line_asking_failsOnly {text : String}
    (h : line showing workspace (parameters.asking chosen).values = .ok text) :
    FailsOnly (fun abort => ∃ name ∈ chosen', workspace.find name = .error .nameTooLong ∧
        abort = .path .nameTooLong (tidyPath name))
      (line showing workspace (parameters.asking chosen').values) :=
  line_failsOnly (fun name hname => lookup_asking name hname) h
    (functionWords_failsOnly lookup_functions_asking)

end Header

end TypeSchema.Command
