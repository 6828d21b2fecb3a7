import TypeSchema.Limits
import TypeSchema.Proofs.Command.Files
import TypeSchema.Proofs.Command.Reading

/-!
# Repeating a recorded run

The command line that a run records is read back into the parameters of the run. Values that count
as false and values that are the default are both left out of it, and what is left out is read back
as the default. The two agree for every parameter but one: an indentation by zero counts as false
and is not the default.

Nothing is recorded if a text is too long a path.
-/

namespace TypeSchema.Command

/-! ### Recorded values -/

/-- The word for a value that is no path. -/
def plainWord : Json → String
  | .text s => s
  | value => value.displayQuoted

theorem isRecorded_text {text : String} (h : text ≠ "") : isRecorded .null (.text text) := by
  simp [isRecorded, Json.isTruthy, isDefault, h]

section Recorded

variable {showing : Nat} {workspace : Workspace} {values : Values} {name : String} {value : Json}
  {switch : Switch}

theorem argumentWords_of_lookup {word : String} (hlookup : values.lookup name = some value)
    (hword : valueWord showing workspace value = .ok word) (default : Json) :
    argumentWords showing workspace values (name, default) =
      .ok (if isRecorded default value then [word] else []) := by
  rw [argumentWords, recorded?_of_lookup hlookup]
  split_ifs
  · exact congrArg (Except.map fun word => [word]) hword
  · rfl

/-- A flag is recorded if it is set. -/
theorem flagWords_of_lookup {flag : Bool} (hname : switch.parameter? = some name)
    (hlookup : values.lookup name = some (.bool flag)) (htakes : switch.takesValue = false) :
    switchWords showing workspace values switch = .ok (if flag then [switch.long] else []) := by
  have hgiven : isRecorded switch.default (.bool flag) = flag := by
    cases switch <;> simp [isRecorded, Json.isTruthy, isDefault]
  rw [switchWords, hname, Option.bind_some, recorded?_of_lookup hlookup, hgiven]
  cases flag with
  | false => rfl
  | true => exact if_neg (Bool.eq_false_iff.mp htakes)

/-- An option that takes a value is recorded with every item of its value. -/
theorem optionWords_of_lookup (word : Json → String) (hname : switch.parameter? = some name)
    (hlookup : values.lookup name = some value) (htakes : switch.takesValue)
    (hwords : ∀ item ∈ itemsOf value, valueWord showing workspace item = .ok (word item)) :
    switchWords showing workspace values switch =
      .ok (if isRecorded switch.default value
        then (itemsOf value).flatMap fun item => [switch.long, word item] else []) := by
  rw [switchWords, hname, Option.bind_some, recorded?_of_lookup hlookup]
  by_cases hgiven : isRecorded switch.default value
  · rw [if_pos hgiven, if_pos hgiven]
    refine (if_pos htakes).trans (flatMapM_eq_ok fun item hitem => ?_)
    rw [hwords item hitem]
    rfl
  · rw [if_neg hgiven, if_neg hgiven]

/-- A text that may be missing, as the value of an option without a default. -/
theorem textWords_of_lookup {α : Type} {option : Option α} {content : α → String}
    (word : α → String) (hname : switch.parameter? = some name)
    (hlookup : values.lookup name = some (option.elim .null fun a => .text (content a)))
    (htakes : switch.takesValue) (hdefault : switch.default = .null)
    (hwords : ∀ a ∈ option, content a ≠ "" ∧
      valueWord showing workspace (.text (content a)) = .ok (word a)) :
    switchWords showing workspace values switch =
      .ok (option.toList.flatMap fun a => [switch.long, word a]) := by
  cases option with
  | none =>
      rw [optionWords_of_lookup plainWord hname hlookup htakes
        (List.forall_mem_singleton.mpr rfl)]
      rfl
  | some a =>
      rw [Option.elim_some] at hlookup
      obtain ⟨hnonempty, hword⟩ := hwords a rfl
      rw [optionWords_of_lookup (fun _ => word a) hname hlookup htakes
        (List.forall_mem_singleton.mpr hword), hdefault, if_pos (isRecorded_text hnonempty)]
      rfl

end Recorded

/-! ### Plain runs -/

/-- The words of a command line, as blanks separate them. -/
def wordsOf (text : String) : List String := (text.toList.splitOn ' ').map String.ofList

theorem blank_not_mem_toString (n : Int) : ' ' ∉ (toString n).toList := by
  have hdigits : ∀ c ∈ Nat.toDigits 10 n.natAbs, ' ' ≠ c :=
    Numeral.forall_mem_toDigits (by decide) (by decide) (by decide) _
  rw [Numeral.toList_toString]
  split_ifs
  · exact fun h => (List.mem_cons.mp h).elim (by decide) fun h => hdigits _ h rfl
  · exact fun h => hdigits _ h rfl

/-- A word that is read as it stands. -/
@[mk_iff]
structure IsPlainWord (word : String) : Prop where
  nonempty : word ≠ ""
  blankless : ' ' ∉ word.toList
  hyphenless : word.toList.head? ≠ some '-'

instance : DecidablePred IsPlainWord := fun word => decidable_of_iff _ (isPlainWord_iff word).symm

theorem isFileName_hyphen : IsFileName "-" := by decide

namespace Parameters

variable {showing : Nat} {workspace : Workspace} {parameters : Parameters}

/-- The parameters of a run that is given plain words: files of the working directory, and texts
that are not the path of anything. -/
structure IsPlain (parameters : Parameters) (workspace : Workspace) : Prop where
  path : workspace.HoldsFile parameters.path ∧ IsPlainWord parameters.path.name
  config : ∀ place ∈ parameters.config, workspace.HoldsFile place ∧ IsPlainWord place.name
  functions : ∀ name ∈ parameters.functions,
    (∀ place, workspace.find name ≠ .ok place) ∧ IsPlainWord name
  output : parameters.output ≠ "-" →
    (∀ place, workspace.find parameters.output ≠ .ok place) ∧ IsPlainWord parameters.output

/-- The texts of a run that are tried as paths when its command line is recorded. -/
def texts (parameters : Parameters) : List String :=
  parameters.path.render :: parameters.output ::
    (parameters.config.toList.map Place.render ++ parameters.functions)

/-- The arguments that the command line of a run records. -/
def arguments (parameters : Parameters) : List String :=
  parameters.path.name :: if parameters.output = "-" then [] else [parameters.output]

/-- The values that the command line of a run records for a switch. -/
def given (parameters : Parameters) : Switch → List String
  | .config => parameters.config.toList.map Place.name
  | .function => parameters.functions
  | .mode => parameters.mode.toList.map ReferenceMode.name
  | .aliases => if parameters.aliases then [""] else []
  | .indent =>
    if parameters.indent = 0 ∨ parameters.indent = 2 then [] else [toString parameters.indent]
  | .verbose => if parameters.verbose then [""] else []
  | .help => []

/-- The words that the command line of a run records after the name of the command. -/
def recorded (parameters : Parameters) : Words := .giving parameters.arguments parameters.given

/-- What the recorded command line of a run is read back into. An indentation by zero is not
recorded, so that the default takes its place. -/
def readBack (parameters : Parameters) : Parameters :=
  { parameters with indent := if parameters.indent = 0 then 2 else parameters.indent }

theorem IsPlain.isRecorded_output (plain : parameters.IsPlain workspace)
    (h : parameters.output ≠ "-") : isRecorded (.text "-") (.text parameters.output) := by
  simp [isRecorded, Json.isTruthy, isDefault, (plain.output h).2.nonempty, Ne.symm h]

section Recording

variable (plain : parameters.IsPlain workspace)
  (short : ∀ text ∈ parameters.texts, workspace.find text ≠ .error .nameTooLong)
include plain short

theorem valueWord_output :
    valueWord showing workspace (.text parameters.output) = .ok parameters.output := by
  have hshort := short _ (List.mem_cons_of_mem _ List.mem_cons_self)
  by_cases hdefault : parameters.output = "-"
  · refine valueWord_of_isFileName ?_ hshort
    rw [hdefault]
    exact isFileName_hyphen
  · exact valueWord_of_missing (plain.output hdefault).1 hshort

theorem recorded_arguments :
    argumentDefaults.flatMapM (argumentWords showing workspace parameters.values) =
      .ok parameters.arguments := by
  have hpath : argumentWords showing workspace parameters.values ("path", .null) =
      .ok [parameters.path.name] := by
    have hlookup : parameters.values.lookup "path" = some (.text parameters.path.render) := rfl
    rw [argumentWords_of_lookup hlookup
      (plain.path.1.valueWord_render (short _ List.mem_cons_self)),
      if_pos (isRecorded_text parameters.path.render_ne_empty)]
  have houtput : argumentWords showing workspace parameters.values ("output", .text "-") =
      .ok (if parameters.output = "-" then [] else [parameters.output]) := by
    have hlookup : parameters.values.lookup "output" = some (.text parameters.output) := rfl
    rw [argumentWords_of_lookup hlookup (valueWord_output plain short)]
    by_cases hdefault : parameters.output = "-"
    · rw [if_pos hdefault, hdefault]
      rfl
    · rw [if_neg hdefault, if_pos (plain.isRecorded_output hdefault)]
  rw [argumentDefaults, List.flatMapM_cons, hpath, List.flatMapM_cons, houtput, arguments]
  split_ifs <;> rfl

theorem recorded_switch (indentable : ¬ (Number.integer parameters.indent).isTooLong)
    (switch : Switch) : switchWords showing workspace parameters.values switch =
      .ok ((parameters.given switch).flatMap fun value => Use.words ⟨switch, value⟩) := by
  cases switch with
  | config =>
      have hlookup : parameters.values.lookup "config" =
          some (parameters.config.elim .null fun place => .text place.render) := rfl
      rw [textWords_of_lookup Place.name rfl hlookup rfl rfl fun place hplace => ?_, given,
        List.flatMap_map]
      · rfl
      · have htext : place.render ∈ parameters.texts := by
          simp [texts, Option.mem_def.mp hplace]
        exact ⟨place.render_ne_empty,
          (plain.config place hplace).1.valueWord_render (short _ htext)⟩
  | function =>
      have hlookup : parameters.values.lookup "functions" =
          some (.array (parameters.functions.map .text)) := rfl
      rw [optionWords_of_lookup plainWord rfl hlookup rfl ?_, given]
      · cases parameters.functions with
        | nil => rfl
        | cons first rest =>
            rw [itemsOf, List.flatMap_map]
            rfl
      · intro item hitem
        obtain ⟨name, hname, rfl⟩ := List.mem_map.mp hitem
        have htext : name ∈ parameters.texts := by
          simp [texts, hname]
        exact valueWord_of_missing (plain.functions name hname).1 (short _ htext)
  | mode =>
      have hlookup : parameters.values.lookup "mode" =
          some (parameters.mode.elim .null fun mode => .text mode.name) := rfl
      rw [textWords_of_lookup ReferenceMode.name rfl hlookup rfl rfl fun mode _ => ?_, given,
        List.flatMap_map]
      · rfl
      · have hname : IsFileName mode.name ∧ mode.name.utf8ByteSize ≤ nameLimit := by
          cases mode <;> decide
        exact ⟨hname.1.nonempty, valueWord_of_isFileName hname.1
          (find_ne_nameTooLong_of_isFileName hname.1 hname.2)⟩
  | indent =>
      have hlookup : parameters.values.lookup "indent" = some (.ofInt parameters.indent) := rfl
      have hgiven : isRecorded Switch.indent.default (.ofInt parameters.indent) =
          !decide (parameters.indent = 0 ∨ parameters.indent = 2) := by
        simp [isRecorded, Json.ofInt, Json.isTruthy, isDefault, Switch.default, Number.isZero,
          Number.hasValue]
      have hword : valueWord showing workspace (.ofInt parameters.indent) =
          .ok (plainWord (.ofInt parameters.indent)) := by
        rw [valueWord, Json.ofInt, Json.display, Json.quoted, Json.stop?, if_neg indentable]
        · rfl
        · intro s hs
          cases hs
        · intro s hs
          cases hs
      rw [optionWords_of_lookup plainWord rfl hlookup rfl
        (List.forall_mem_singleton.mpr hword), hgiven, given]
      by_cases homitted : parameters.indent = 0 ∨ parameters.indent = 2
      · rw [if_pos homitted, decide_eq_true homitted]
        rfl
      · rw [if_neg homitted, decide_eq_false homitted]
        rfl
  | aliases =>
      rw [flagWords_of_lookup rfl (rfl : parameters.values.lookup "resolve_type_aliases" =
        some (.bool parameters.aliases)) rfl]
      cases h : parameters.aliases <;> rw [given, h] <;> rfl
  | verbose =>
      rw [flagWords_of_lookup rfl (rfl : parameters.values.lookup "verbose" =
        some (.bool parameters.verbose)) rfl]
      cases h : parameters.verbose <;> rw [given, h] <;> rfl
  | help => rfl

theorem line_eq (indentable : ¬ (Number.integer parameters.indent).isTooLong) :
    line showing workspace parameters.values =
      .ok (String.intercalate " " (commandName :: parameters.recorded.spelled)) := by
  have hswitch (switch : Switch) : switchWords showing workspace parameters.values switch =
      .ok ((parameters.given switch).flatMap fun value => Use.words ⟨switch, value⟩) :=
    recorded_switch plain short indentable switch
  have hoptions := flatMapM_eq_ok fun switch (_ : switch ∈ Switch.all) => hswitch switch
  rw [line, lineWords, recorded_arguments plain short, hoptions, Words.spelled, recorded,
    Words.giving, List.flatMap_assoc]
  simp only [List.flatMap_map]
  rfl

end Recording

/-! ### Reading back -/

theorem isProper_of_mem_given {switch : Switch} {value : String}
    (h : value ∈ parameters.given switch) : Use.IsProper ⟨switch, value⟩ := by
  intro htakes
  cases switch with
  | aliases | verbose =>
      rw [given] at h
      split_ifs at h
      · exact List.mem_singleton.mp h
      · exact absurd h List.not_mem_nil
  | help => exact absurd h List.not_mem_nil
  | config | function | mode | indent => cases htakes

/-- What is not recorded is read back as it is. -/
theorem sameIn_of_given_eq_nil {switch : Switch} (h : parameters.given switch = []) :
    parameters.readBack.SameIn {} switch := by
  cases switch with
  | config | mode =>
      rw [given, List.map_eq_nil_iff, Option.toList_eq_nil_iff] at h
      exact h
  | function => exact h
  | aliases | verbose =>
      rw [given] at h
      split_ifs at h with hset
      exact Bool.eq_false_iff.mpr hset
  | indent =>
      rw [given] at h
      split_ifs at h with homitted
      refine ite_eq_left_iff.mpr fun hne => ?_
      exact homitted.resolve_left hne
  | help => trivial

/-- What is known of parameters that a command line was read into. -/
structure IsRead (parameters : Parameters) (workspace : Workspace) : Prop where
  path : workspace.mayRead parameters.path
  config : ∀ place ∈ parameters.config, workspace.mayRead place
  output : checkOutput workspace parameters.output = .ok ()
  indentable : ¬ (Number.integer parameters.indent).isTooLong

theorem isRead_of_read {arguments : List String}
    (h : Request.read workspace arguments = .ok (.run parameters)) :
    parameters.IsRead workspace := by
  obtain ⟨words, -, -, hwords⟩ := Request.read_eq_run_iff.mp h
  obtain ⟨hoptions, path, rest, -, -, hpath, -, houtput⟩ := ofWords_eq_ok_iff.mp hwords
  refine ⟨(existing_eq_ok_iff.mp hpath).2.2.2, fun place hplace => ?_, houtput,
    Options.not_isTooLong_of_ofWords hoptions⟩
  obtain ⟨hgiven, hdefault⟩ := Options.ofWords_eq_ok_iff.mp hoptions
  by_cases hmem : Switch.config ∈ words.switches
  · obtain ⟨found, hfound, hconfig⟩ := hgiven .config hmem
    obtain rfl := Option.some.inj (hconfig.symm.trans (Option.mem_def.mp hplace))
    exact (existing_eq_ok_iff.mp hfound).2.2.2
  · have hnone : parameters.config = none := hdefault .config hmem
    rw [hnone] at hplace
    cases hplace

section Reading

variable (plain : parameters.IsPlain workspace)
include plain

/-- What is recorded is read back as it is. -/
theorem reflects_given (read : parameters.IsRead workspace) {switch : Switch}
    (h : parameters.given switch ≠ []) :
    parameters.readBack.Reflects workspace (parameters.given switch) switch := by
  cases switch with
  | config =>
      cases hconfig : parameters.config with
      | none => exact absurd (by rw [given, hconfig]; rfl) h
      | some place =>
          refine ⟨place, ?_, hconfig⟩
          rw [given, hconfig]
          exact (plain.config place hconfig).1.existing_name (read.config place hconfig) _
  | function => rfl
  | mode =>
      cases hmode : parameters.mode with
      | none => exact absurd (by rw [given, hmode]; rfl) h
      | some mode =>
          refine ⟨mode, ?_, hmode⟩
          rw [given, hmode]
          cases mode <;> rfl
  | aliases | verbose =>
      rw [given] at h
      split_ifs at h with hset
      · exact hset
      · exact absurd rfl h
  | indent =>
      rw [given] at h ⊢
      split_ifs at h ⊢ with homitted
      · exact absurd rfl h
      · have hindent : parameters.readBack.indent = parameters.indent :=
          if_neg fun hzero => homitted (.inl hzero)
        have hread : readInteger Switch.indent.hint (toString parameters.indent) =
            .ok parameters.indent := by
          rw [readInteger, Numeral.separatedInteger_toString read.indentable]
        exact hread.trans (congrArg Except.ok hindent.symm)
  | help => trivial

theorem ofWords_recorded (read : parameters.IsRead workspace) :
    Options.ofWords workspace parameters.recorded = .ok parameters.readBack.toOptions := by
  refine Options.ofWords_eq_ok_iff.mpr ⟨fun switch hswitch => ?_, fun switch hswitch => ?_⟩
  · rw [recorded, Words.values_giving]
    exact reflects_given plain read (Words.mem_switches_giving.mp hswitch)
  · exact sameIn_of_given_eq_nil (not_not.mp (mt Words.mem_switches_giving.mpr hswitch))

theorem blankless_of_mem_given {switch : Switch} {value : String}
    (h : value ∈ parameters.given switch) : ' ' ∉ value.toList := by
  cases switch with
  | config =>
      obtain ⟨place, hplace, rfl⟩ := List.mem_map.mp h
      exact (plain.config place (Option.mem_toList.mp hplace)).2.blankless
  | function => exact (plain.functions value h).2.blankless
  | mode =>
      obtain ⟨mode, -, rfl⟩ := List.mem_map.mp h
      cases mode <;> decide
  | aliases | verbose =>
      rw [given] at h
      split_ifs at h
      · rw [List.mem_singleton.mp h]
        exact List.not_mem_nil
      · exact absurd h List.not_mem_nil
  | indent =>
      rw [given] at h
      split_ifs at h
      · exact absurd h List.not_mem_nil
      · rw [List.mem_singleton.mp h]
        exact blank_not_mem_toString parameters.indent
  | help => exact absurd h List.not_mem_nil

theorem isPlainWord_of_mem_arguments {word : String} (h : word ∈ parameters.arguments) :
    IsPlainWord word := by
  obtain rfl | h := List.mem_cons.mp h
  · exact plain.path.2
  · split_ifs at h with hdefault
    · exact absurd h List.not_mem_nil
    · rw [List.mem_singleton.mp h]
      exact (plain.output hdefault).2

/-- The recorded words stand between the blanks of the command line. -/
theorem wordsOf_recorded :
    wordsOf (String.intercalate " " (commandName :: parameters.recorded.spelled)) =
      commandName :: parameters.recorded.spelled := by
  refine splitOn_intercalate rfl (List.forall_mem_cons.mpr ⟨by decide, ?_⟩) (List.cons_ne_nil _ _)
  intro word hword
  obtain hargument | hoption := List.mem_append.mp hword
  · exact (isPlainWord_of_mem_arguments plain hargument).blankless
  · obtain ⟨use, huse, hmem⟩ := List.mem_flatMap.mp hoption
    have hvalue := blankless_of_mem_given plain (Words.mem_uses_giving.mp huse)
    have hlong : ' ' ∉ use.switch.long.toList := by
      cases use.switch <;> decide
    rw [Use.words] at hmem
    split_ifs at hmem
    · obtain rfl | hmem := List.mem_cons.mp hmem
      · exact hlong
      · rw [List.mem_singleton.mp hmem]
        exact hvalue
    · rw [List.mem_singleton.mp hmem]
      exact hlong

/-- **Reading back** the recorded words. -/
theorem read_recorded (read : parameters.IsRead workspace) :
    Request.read workspace parameters.recorded.spelled = .ok (.run parameters.readBack) := by
  refine Request.read_eq_run_iff.mpr ⟨parameters.recorded, ?_, ?_, ?_⟩
  · refine Words.read_spelled (fun word hword => ?_) fun use huse => ?_
    · exact (isPlainWord_of_mem_arguments plain hword).hyphenless
    · exact isProper_of_mem_given (Words.mem_uses_giving.mp huse)
  · rw [recorded, Words.mem_switches_giving, not_not]
    rfl
  · refine Parameters.ofWords_eq_ok_iff.mpr ⟨ofWords_recorded plain read, parameters.path.name, _,
      rfl, ?_, plain.path.1.existing_name read.path _, ?_, read.output⟩
    · split_ifs
      · exact Nat.zero_le 1
      · exact le_rfl
    · by_cases hdefault : parameters.output = "-"
      · rw [if_pos hdefault]
        exact hdefault.symm
      · rw [if_neg hdefault]
        rfl

end Reading

theorem readBack_eq_iff : parameters.readBack = parameters ↔ parameters.indent ≠ 0 := by
  constructor
  · intro h hzero
    have hindent : parameters.readBack.indent = 0 := (congrArg (·.indent) h).trans hzero
    rw [readBack, if_pos hzero] at hindent
    cases hindent
  · intro hne
    rw [readBack, if_neg hne]

/-- If the command line is recorded, then no text is too long a path. -/
theorem not_tooLong_of_line (plain : parameters.IsPlain workspace) {recorded : String}
    (h : line showing workspace parameters.values = .ok recorded) :
    ∀ text ∈ parameters.texts, workspace.find text ≠ .error .nameTooLong := by
  obtain ⟨harguments, hoptions⟩ := parts_of_line h
  simp only [texts, List.forall_mem_cons, List.forall_mem_append]
  refine ⟨?_, ?_, ?_, find_ne_nameTooLong_of_line rfl h⟩
  · obtain ⟨words, hwords⟩ := harguments ("path", .null) List.mem_cons_self
    obtain ⟨word, hword⟩ := exists_valueWord_of_argumentWords rfl
      (isRecorded_text parameters.path.render_ne_empty) hwords
    exact find_ne_nameTooLong_of_valueWord hword
  -- The default output is not recorded, so its name has to be short.
  · by_cases hdefault : parameters.output = "-"
    · rw [hdefault]
      exact find_ne_nameTooLong_of_isFileName isFileName_hyphen (by decide)
    · obtain ⟨words, hwords⟩ :=
        harguments ("output", .text "-") (List.mem_cons_of_mem _ List.mem_cons_self)
      obtain ⟨word, hword⟩ :=
        exists_valueWord_of_argumentWords rfl (plain.isRecorded_output hdefault) hwords
      exact find_ne_nameTooLong_of_valueWord hword
  · intro text htext
    obtain ⟨place, hplace, rfl⟩ := List.mem_map.mp htext
    obtain ⟨words, hwords⟩ := hoptions .config (by decide)
    have hlookup : parameters.values.lookup "config" = some (.text place.render) := by
      have hconfig := Option.mem_def.mp (Option.mem_toList.mp hplace)
      simp [values, hconfig]
    have hgiven : isRecorded Switch.config.default (.text place.render) :=
      isRecorded_text place.render_ne_empty
    obtain ⟨word, hword⟩ :=
      exists_valueWord_of_switchWords rfl hlookup rfl hgiven hwords _ List.mem_cons_self
    exact find_ne_nameTooLong_of_valueWord hword

/-- The command line that a run records asks for the same run again. -/
def Repeats (parameters : Parameters) (showing : Nat) (workspace : Workspace) : Prop :=
  ∃ text words, line showing workspace parameters.values = .ok text ∧
    wordsOf text = commandName :: words ∧
    Request.read workspace words = .ok (.run parameters)

/-- What is recorded is read back, and nothing else is. -/
theorem repeats_iff {arguments : List String}
    (hread : Request.read workspace arguments = .ok (.run parameters))
    (plain : parameters.IsPlain workspace) :
    parameters.Repeats showing workspace ↔ parameters.readBack = parameters ∧
      ∀ text ∈ parameters.texts, workspace.find text ≠ .error .nameTooLong := by
  have read := isRead_of_read hread
  have hback : Request.read workspace parameters.recorded.spelled =
      .ok (.run parameters.readBack) := read_recorded plain read
  constructor
  · rintro ⟨text, words, hline, hsplit, hrepeated⟩
    -- What is recorded can only be read back in one way.
    have hshort := not_tooLong_of_line plain hline
    obtain rfl := Except.ok.inj (hline.symm.trans (line_eq plain hshort read.indentable))
    obtain rfl := (List.cons.inj (hsplit.symm.trans (wordsOf_recorded plain))).2
    exact ⟨Request.run.inj (Except.ok.inj (hback.symm.trans hrepeated)), hshort⟩
  · rintro ⟨hsame, hshort⟩
    refine ⟨_, _, line_eq plain hshort read.indentable, wordsOf_recorded plain, ?_⟩
    rw [hback, hsame]

end Parameters

/-- **A recorded run can be repeated.** The command line that a run with plain words records is
read back into the parameters of the run, if its result is not to be indented by zero and none of
its texts is too long a path; and only then. -/
theorem recorded_runs_repeat {showing : Nat} {workspace : Workspace} {arguments : List String}
    {parameters : Parameters} (hread : Request.read workspace arguments = .ok (.run parameters))
    (plain : parameters.IsPlain workspace) :
    parameters.Repeats showing workspace ↔ parameters.indent ≠ 0 ∧
      ∀ text ∈ parameters.texts, workspace.find text ≠ .error .nameTooLong := by
  rw [Parameters.repeats_iff hread plain, Parameters.readBack_eq_iff]

/-- A directory with a document and settings. -/
def project : Workspace where
  directory := ["work"]
  files := [(["work", "api"], .empty), (["work", "settings"], .empty)]

theorem project_holdsFile : project.HoldsFile ["work", "api"] ∧
    project.HoldsFile ["work", "settings"] :=
  ⟨⟨rfl, rfl, by decide⟩, ⟨rfl, rfl, by decide⟩⟩

/-- Two functions are asked for, among other things. -/
def projectArguments : List String :=
  ["-v", "api", "schema", "-c", "settings", "-fgetUser", "--function=listUsers", "--mode", "share",
    "--resolve-type-aliases", "--indent", "-4"]

def projectParameters : Parameters where
  config := some ["work", "settings"]
  functions := ["getUser", "listUsers"]
  mode := some .share
  aliases := true
  indent := -4
  verbose := true
  path := ["work", "api"]
  output := "schema"

theorem projectParameters_isPlain : projectParameters.IsPlain project where
  path := ⟨project_holdsFile.1, by decide⟩
  config := by
    intro place hplace
    obtain rfl := Option.some.inj hplace
    exact ⟨project_holdsFile.2, by decide⟩
  functions := by
    have hmissing : ∀ name ∈ projectParameters.functions,
        project.find name = .error .notFound ∧ IsPlainWord name := by decide
    intro name hname
    obtain ⟨hfind, hplain⟩ := hmissing name hname
    exact ⟨by simp [hfind], hplain⟩
  output := by
    intro _
    have hfind : project.find projectParameters.output = .error .notFound := rfl
    exact ⟨by simp [hfind], by decide⟩

theorem recorded_runs_repeat_project :
    Request.read project projectArguments = .ok (.run projectParameters) ∧
      projectParameters.IsPlain project ∧
        projectParameters.Repeats Limits.usual.showing project := by
  have hread : Request.read project projectArguments = .ok (.run projectParameters) := rfl
  have plain := projectParameters_isPlain
  exact ⟨hread, plain, (recorded_runs_repeat hread plain).mpr ⟨by decide, by decide⟩⟩

/-! ### An indentation by zero -/

/-- The result is to be written on one line. -/
def onelineParameters : Parameters where
  indent := 0
  path := ["work", "api"]

/-- What is recorded of a run that writes its result on one line asks for the usual indentation. -/
theorem recorded_runs_not_always_repeat :
    ¬ ∀ (showing : Nat) (workspace : Workspace) (arguments : List String) (parameters : Parameters),
      Request.read workspace arguments = .ok (.run parameters) → parameters.IsPlain workspace →
        parameters.Repeats showing workspace := by
  intro h
  have hread : Request.read project ["--indent", "0", "api"] = .ok (.run onelineParameters) := rfl
  have plain : onelineParameters.IsPlain project :=
    { path := ⟨project_holdsFile.1, by decide⟩
      config := fun place hplace => absurd hplace (by simp [onelineParameters])
      functions := List.forall_mem_nil _
      output := absurd rfl }
  have hrepeats := h Limits.usual.showing _ _ _ hread plain
  have hsame := ((Parameters.repeats_iff hread plain).mp hrepeats).1
  exact Parameters.readBack_eq_iff.mp hsame rfl

end TypeSchema.Command
