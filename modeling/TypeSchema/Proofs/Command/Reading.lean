import TypeSchema.Command.Parameters
import TypeSchema.Proofs.Basic
import TypeSchema.Proofs.Number.Numeral

/-!
# Reading a command line

Options that are spelled out one by one, each with its value in the next word, are read as they
stand, and so is an argument in front of them. What the options of a run are is then told for each
switch by itself: its own parameter is the one that it sets, and no other switch changes that.
-/

namespace TypeSchema.Command

/-! ### Words -/

/-- The words for an option: its long name, and its value if it takes one. -/
def Use.words (use : Use) : List String :=
  if use.switch.takesValue then [use.switch.long, use.value] else [use.switch.long]

/-- The words for arguments and the options after them. -/
def Words.spelled (words : Words) : List String :=
  words.arguments ++ words.uses.flatMap Use.words

/-- An option that takes no value has none. -/
def Use.IsProper (use : Use) : Prop := use.switch.takesValue = false → use.value = ""

theorem startsOption_long (switch : Switch) : startsOption switch.long := by
  cases switch <;> rfl

theorem readOption_long (switch : Switch) : readOption switch.long = .ok
    (if switch.takesValue then ⟨[], some (switch, switch.long)⟩ else ⟨[⟨switch, ""⟩], none⟩) := by
  cases switch <;> rfl

theorem long_ne_separator (switch : Switch) : switch.long ≠ "--" := by
  cases switch <;> decide

theorem Words.read_use {use : Use} (proper : use.IsProper) (rest : List String) :
    Words.read (use.words ++ rest) = (Words.read rest).map (·.withUses [use]) := by
  obtain ⟨switch, value⟩ := use
  have hread := readOption_long switch
  by_cases htakes : switch.takesValue
  · have hwords : Use.words ⟨switch, value⟩ = [switch.long, value] := if_pos htakes
    rw [if_pos htakes] at hread
    rw [hwords, List.cons_append, Words.read, if_neg (long_ne_separator switch),
      if_pos (startsOption_long switch), hread]
    rfl
  · have hwords : Use.words ⟨switch, value⟩ = [switch.long] := if_neg htakes
    have hvalue : value = "" := proper (Bool.eq_false_iff.mpr htakes)
    rw [if_neg htakes] at hread
    rw [hwords, List.cons_append, Words.read, if_neg (long_ne_separator switch),
      if_pos (startsOption_long switch), hread, hvalue]
    rfl

theorem Words.read_uses {uses : List Use} (proper : ∀ use ∈ uses, use.IsProper) :
    Words.read (uses.flatMap Use.words) = .ok ⟨uses, []⟩ := by
  induction uses with
  | nil => rfl
  | cons use rest ih =>
      obtain ⟨hfirst, hrest⟩ := List.forall_mem_cons.mp proper
      rw [List.flatMap_cons, Words.read_use hfirst, ih hrest]
      rfl

/-- A word that does not start with a hyphen is an argument. -/
theorem Words.read_argument {word : String} (h : word.toList.head? ≠ some '-')
    (rest : List String) :
    Words.read (word :: rest) = (Words.read rest).map (·.withArgument word) := by
  have hseparator : word ≠ "--" := by
    rintro rfl
    exact h rfl
  have hoption : ¬ startsOption word := by
    rw [startsOption]
    split
    · next hchars => exact absurd (by rw [hchars]; rfl) h
    · exact Bool.false_ne_true
  rw [Words.read, if_neg hseparator, if_neg hoption]

/-- Words that are spelled out are read as they stand. -/
theorem Words.read_spelled {words : Words}
    (hyphenless : ∀ word ∈ words.arguments, word.toList.head? ≠ some '-')
    (proper : ∀ use ∈ words.uses, use.IsProper) : Words.read words.spelled = .ok words := by
  obtain ⟨uses, arguments⟩ := words
  induction arguments with
  | nil => exact Words.read_uses proper
  | cons word rest ih =>
      obtain ⟨hfirst, hrest⟩ := List.forall_mem_cons.mp hyphenless
      have htail : Words.read (rest ++ uses.flatMap Use.words) = .ok ⟨uses, rest⟩ := ih hrest proper
      rw [Words.spelled, List.cons_append, Words.read_argument hfirst, htail]
      rfl

/-- The words of a command line on which every switch is given its values, in the order of
declaration. -/
def Words.giving (arguments : List String) (given : Switch → List String) : Words where
  uses := Switch.all.flatMap fun switch => (given switch).map fun value => ⟨switch, value⟩
  arguments := arguments

section Giving

variable {arguments : List String} {given : Switch → List String} {switch : Switch}

theorem Words.mem_uses_giving {use : Use} :
    use ∈ (Words.giving arguments given).uses ↔ use.value ∈ given use.switch := by
  obtain ⟨switch, value⟩ := use
  have hall : switch ∈ Switch.all := by cases switch <;> decide
  simp [Words.giving, hall]

theorem Words.mem_switches_giving :
    switch ∈ (Words.giving arguments given).switches ↔ given switch ≠ [] := by
  rw [Words.switches, List.mem_eraseDups, List.mem_map]
  constructor
  · rintro ⟨use, huse, rfl⟩
    exact List.ne_nil_of_mem (Words.mem_uses_giving.mp huse)
  · intro hnonempty
    obtain ⟨value, hvalue⟩ := List.exists_mem_of_ne_nil _ hnonempty
    exact ⟨⟨switch, value⟩, Words.mem_uses_giving.mpr hvalue, rfl⟩

theorem Words.values_giving : (Words.giving arguments given).values switch = given switch := by
  have hown (other : Switch) :
      ((given other).map fun value => (⟨other, value⟩ : Use)).filter (·.switch = switch) =
        if other = switch then (given other).map fun value => ⟨other, value⟩ else [] := by
    by_cases heq : other = switch <;> simp [heq, List.filter_map, Function.comp_def]
  have hvalues : (((given switch).map fun value => (⟨switch, value⟩ : Use)).map (·.value)) =
      given switch := by
    rw [List.map_map]
    exact List.map_id _
  rw [Words.values, Words.giving, List.filter_flatMap]
  simp only [hown]
  cases switch <;> simpa [Switch.all] using hvalues

end Giving

/-! ### Options -/

namespace Options

variable {workspace : Workspace} {options next : Options} {switch other : Switch}
  {values : List String}

/-- The parameter that a switch stands for is the same. -/
def SameIn (options other : Options) : Switch → Prop
  | .config => options.config = other.config
  | .function => options.functions = other.functions
  | .mode => options.mode = other.mode
  | .aliases => options.aliases = other.aliases
  | .indent => options.indent = other.indent
  | .verbose => options.verbose = other.verbose
  | .help => True

theorem eq_of_sameIn (h : ∀ switch, options.SameIn next switch) : options = next := by
  obtain ⟨config, functions, mode, aliases, indent, verbose⟩ := options
  obtain rfl := h .config
  obtain rfl := h .function
  obtain rfl := h .mode
  obtain rfl := h .aliases
  obtain rfl := h .indent
  obtain rfl := h .verbose
  rfl

theorem SameIn.refl (options : Options) (switch : Switch) : options.SameIn options switch := by
  cases switch <;> first | rfl | trivial

theorem SameIn.symm (h : options.SameIn next switch) : next.SameIn options switch := by
  cases switch <;> first | exact Eq.symm h | trivial

theorem SameIn.trans {last : Options} (h : options.SameIn next switch)
    (h' : next.SameIn last switch) : options.SameIn last switch := by
  cases switch <;> first | exact Eq.trans h h' | trivial

/-- The parameter that a switch stands for is what the values for it say. -/
def Reflects (options : Options) (workspace : Workspace) (values : List String) : Switch → Prop
  | .config =>
    ∃ place, existing workspace Switch.config.hint (values.getLast?.getD "") = .ok place ∧
      options.config = some place
  | .function => options.functions = values
  | .mode => ∃ mode, readMode Switch.mode.hint (values.getLast?.getD "") = .ok mode ∧
      options.mode = some mode
  | .aliases => options.aliases = true
  | .indent => readInteger Switch.indent.hint (values.getLast?.getD "") = .ok options.indent
  | .verbose => options.verbose = true
  | .help => True

theorem Reflects.of_sameIn (h : options.Reflects workspace values switch)
    (same : next.SameIn options switch) : next.Reflects workspace values switch := by
  cases switch with
  | config =>
      obtain ⟨place, hplace, hoptions⟩ := h
      exact ⟨place, hplace, Eq.trans same hoptions⟩
  | mode =>
      obtain ⟨mode, hmode, hoptions⟩ := h
      exact ⟨mode, hmode, Eq.trans same hoptions⟩
  | indent => exact Eq.trans h (congrArg Except.ok same.symm)
  | function | aliases | verbose => exact Eq.trans same h
  | help => trivial

theorem reflects_of_set (h : options.set workspace switch values = .ok next) :
    next.Reflects workspace values switch := by
  cases switch with
  | config =>
      obtain ⟨place, hplace, rfl⟩ := except_map_eq_ok_iff.mp h
      exact ⟨place, hplace, rfl⟩
  | mode =>
      obtain ⟨mode, hmode, rfl⟩ := except_map_eq_ok_iff.mp h
      exact ⟨mode, hmode, rfl⟩
  | indent =>
      obtain ⟨n, hn, rfl⟩ := except_map_eq_ok_iff.mp h
      exact hn
  | function | aliases | verbose =>
      obtain rfl := Except.ok.inj h
      rfl
  | help => trivial

/-- No other parameter changes. -/
theorem sameIn_of_set (h : options.set workspace switch values = .ok next) (hne : other ≠ switch) :
    next.SameIn options other := by
  cases switch with
  | config | mode | indent =>
      obtain ⟨_, -, rfl⟩ := except_map_eq_ok_iff.mp h
      cases other <;> first | rfl | trivial
  | function | aliases | verbose | help =>
      obtain rfl := Except.ok.inj h
      cases other <;> first | rfl | trivial

/-- What the values for a switch say can be set, whatever was set before. -/
theorem exists_set (h : next.Reflects workspace values switch) (options : Options) :
    ∃ changed, options.set workspace switch values = .ok changed ∧ next.SameIn changed switch := by
  cases switch with
  | config =>
      obtain ⟨place, hplace, hnext⟩ := h
      exact ⟨_, except_map_eq_ok_iff.mpr ⟨place, hplace, rfl⟩, hnext⟩
  | mode =>
      obtain ⟨mode, hmode, hnext⟩ := h
      exact ⟨_, except_map_eq_ok_iff.mpr ⟨mode, hmode, rfl⟩, hnext⟩
  | indent => exact ⟨_, except_map_eq_ok_iff.mpr ⟨_, h, rfl⟩, rfl⟩
  | function | aliases | verbose | help => exact ⟨_, rfl, h⟩

/-- **The options of a run**, switch by switch: the parameter of one that is given is what the
values for it say, and the parameter of one that is not given is as it was. -/
theorem foldlM_set_eq_ok_iff {switches : List Switch} {given : Switch → List String} :
    switches.foldlM (fun options switch => options.set workspace switch (given switch)) options =
        .ok next ↔
      (∀ switch ∈ switches, next.Reflects workspace (given switch) switch) ∧
        ∀ switch, switch ∉ switches → next.SameIn options switch := by
  induction switches generalizing options with
  | nil =>
      rw [List.foldlM_nil, except_pure_eq_ok_iff]
      constructor
      · rintro rfl
        exact ⟨List.forall_mem_nil _, fun switch _ => .refl _ switch⟩
      · rintro ⟨-, hsame⟩
        exact (eq_of_sameIn fun switch => hsame switch List.not_mem_nil).symm
  | cons first rest ih =>
      rw [List.foldlM_cons, except_bind_eq_ok_iff]
      constructor
      · rintro ⟨changed, hfirst, hrest⟩
        obtain ⟨hreflects, hsame⟩ := ih.mp hrest
        refine ⟨List.forall_mem_cons.mpr ⟨?_, hreflects⟩, fun switch hswitch => ?_⟩
        -- What the first switch sets stays as it is, unless the switch is among the others.
        · by_cases hmem : first ∈ rest
          · exact hreflects first hmem
          · exact (reflects_of_set hfirst).of_sameIn (hsame first hmem)
        · obtain ⟨hne, hrest⟩ := not_or.mp (mt List.mem_cons.mpr hswitch)
          exact (hsame switch hrest).trans (sameIn_of_set hfirst hne)
      · rintro ⟨hreflects, hsame⟩
        obtain ⟨hfirst, hrest⟩ := List.forall_mem_cons.mp hreflects
        obtain ⟨changed, hset, hchanged⟩ := exists_set hfirst options
        refine ⟨changed, hset, ih.mpr ⟨hrest, fun switch hswitch => ?_⟩⟩
        by_cases heq : switch = first
        · rw [heq]
          exact hchanged
        · have hnext := hsame switch (not_or.mpr ⟨heq, hswitch⟩ ∘ List.mem_cons.mp)
          exact hnext.trans (sameIn_of_set hset heq).symm

theorem ofWords_eq_ok_iff {words : Words} : Options.ofWords workspace words = .ok options ↔
    (∀ switch ∈ words.switches, options.Reflects workspace (words.values switch) switch) ∧
      ∀ switch, switch ∉ words.switches → options.SameIn {} switch :=
  foldlM_set_eq_ok_iff

/-- The number of blanks that a run indents by is not too long to be written. -/
theorem not_isTooLong_of_ofWords {words : Words}
    (h : Options.ofWords workspace words = .ok options) :
    ¬ (Number.integer options.indent).isTooLong := by
  obtain ⟨hgiven, hdefault⟩ := ofWords_eq_ok_iff.mp h
  by_cases hmem : Switch.indent ∈ words.switches
  · have hread : readInteger Switch.indent.hint ((words.values .indent).getLast?.getD "") =
        .ok options.indent := hgiven .indent hmem
    rw [readInteger] at hread
    split at hread
    · next n hn =>
        obtain rfl := Except.ok.inj hread
        exact Numeral.not_isTooLong_of_separatedInteger hn
    · cases hread
  · have hindent : options.indent = 2 := hdefault .indent hmem
    rw [hindent, Number.isTooLong_integer_iff, Nat.not_le]
    calc Int.natAbs 2 < 10 ^ 1 := by decide
      _ ≤ 10 ^ Number.digitLimit := Nat.pow_le_pow_right (by decide) (by decide)

end Options

/-! ### Requests -/

section Requests

variable {workspace : Workspace} {parameters : Parameters}

theorem Parameters.ofWords_eq_ok_iff {words : Words} :
    Parameters.ofWords workspace words = .ok parameters ↔
      Options.ofWords workspace words = .ok parameters.toOptions ∧
        ∃ path rest, words.arguments = path :: rest ∧ rest.length ≤ 1 ∧
          existing workspace "'PATH'" path = .ok parameters.path ∧
          rest.head?.getD "-" = parameters.output ∧
          checkOutput workspace parameters.output = .ok () := by
  rw [Parameters.ofWords, except_bind_eq_ok_iff]
  constructor
  · rintro ⟨options, hoptions, h⟩
    split at h
    · cases h
    · next path rest harguments =>
        obtain ⟨place, hplace, h⟩ := except_bind_eq_ok_iff.mp h
        obtain ⟨_, hcheck, h⟩ := except_bind_eq_ok_iff.mp h
        split_ifs at h with hlength
        obtain rfl := Except.ok.inj h
        exact ⟨hoptions, path, rest, harguments, hlength, hplace, rfl, hcheck⟩
  · rintro ⟨hoptions, path, rest, harguments, hlength, hplace, houtput, hcheck⟩
    refine ⟨_, hoptions, ?_⟩
    rw [harguments]
    refine except_bind_eq_ok_iff.mpr ⟨_, hplace, except_bind_eq_ok_iff.mpr ⟨(), ?_, ?_⟩⟩
    · rw [houtput]
      exact hcheck
    · rw [if_pos hlength, houtput]
      rfl

theorem Request.read_eq_run_iff {arguments : List String} :
    Request.read workspace arguments = .ok (.run parameters) ↔
      ∃ words, Words.read arguments = .ok words ∧ .help ∉ words.switches ∧
        Parameters.ofWords workspace words = .ok parameters := by
  rw [Request.read]
  cases Words.read arguments with
  | error error => simp
  | ok words =>
      by_cases hhelp : .help ∈ words.switches
      · simp [Request.ofWords, hhelp]
      · cases hwords : Parameters.ofWords workspace words <;>
          simp [Request.ofWords, hhelp, hwords, Except.map]

end Requests

end TypeSchema.Command
